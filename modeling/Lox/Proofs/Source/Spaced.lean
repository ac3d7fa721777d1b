import Lox.Proofs.Program.Layout
import Lox.Proofs.Source.Delimited

namespace Lox

namespace Piece

theorem split_lexeme {t rest : List Char} {k : Kind} {v : Value} (h : Lexeme t k v)
    (hr : Delimited rest) :
    split (t ++ rest) = .token k t v :: split rest := by
  obtain ⟨c, t, rfl⟩ := List.exists_cons_of_ne_nil h.ne_nil
  have hf : first c (t ++ rest) = .token k (c :: t) v := h.first_append hr
  rw [List.cons_append, split_cons, hf, ← List.cons_append]
  exact congrArg (fun cs => _ :: split cs) List.drop_left

theorem split_space (rest : List Char) : split (' ' :: rest) = .gap [' '] :: split rest := by
  rw [split_cons, first_of_blank (by decide)]
  rfl

theorem filterMap_split_spaced {α : Type} {f : Piece → Option α} (hf : ∀ t, f (.gap t) = none)
    {ts : List Token} (ht : ∀ t ∈ ts, Lexeme t.lexeme.toList t.kind t.literal) :
    (split ([' '].intercalate (ts.map fun t => t.lexeme.toList))).filterMap f =
      ts.filterMap fun t => f (.token t.kind t.lexeme.toList t.literal) := by
  induction ts with
  | nil => rfl
  | cons t ts ih =>
    obtain ⟨hl, hts⟩ := List.forall_mem_cons.1 ht
    have hrest := ih hts
    cases ts with
    | nil =>
      have hsplit := split_lexeme hl delimited_nil
      rw [List.append_nil] at hsplit
      simp only [List.map_singleton, List.intercalate_singleton, hsplit]
      rfl
    | cons u us =>
      rw [List.map_cons] at hrest
      rw [List.map_cons, List.map_cons, List.intercalate_cons_cons, List.append_assoc,
        List.singleton_append, split_lexeme hl (delimited_cons (by decide) _), split_space,
        List.filterMap_cons, List.filterMap_cons_none (hf _), hrest]
      rfl

end Piece

open Piece

theorem errors_eq_nil_of_split {source : String} (h : (split source.toList).filterMap (error? 0) = []) :
    (scan source).errors = [] := by
  rw [← map_unplaced_errors] at h
  exact List.map_eq_nil_iff.1 h

def respelled (source : String) : String :=
  " ".intercalate (((scan source).tokens.filter fun t => t.kind ≠ .eof).map Token.lexeme)

/-- From the spellings alone the same tokens are scanned again, whatever stood between them in the
source. -/
theorem scan_respelled (source : String) :
    (scan (respelled source)).errors = [] ∧
      (scan (respelled source)).tokens.map Token.reading = (scan source).tokens.map Token.reading := by
  obtain ⟨ts, stop, hts, hk, hstop⟩ := scan_tokens_eq_concat source
  have hrespelled : respelled source = " ".intercalate (ts.map Token.lexeme) := by
    rw [respelled, hts, List.filter_append, List.filter_eq_self.2 (by simpa using hk)]
    simp [hstop]
  have hlexemes : ∀ t ∈ ts, Lexeme t.lexeme.toList t.kind t.literal :=
    fun t ht => scan_lexemes source t (by simp [hts, ht]) (hk t ht)
  have hchars :
      (" ".intercalate (ts.map Token.lexeme)).toList =
        [' '].intercalate (ts.map fun t => t.lexeme.toList) := by
    rw [String.toList_intercalate, List.map_map]
    rfl
  -- what is scanned again is the tokens of which the source consists
  have htokens :
      (split (" ".intercalate (ts.map Token.lexeme)).toList).filterMap classified? =
        ts.map Token.reading := by
    have hreading :
        (fun t : Token => classified? (.token t.kind t.lexeme.toList t.literal)) =
          some ∘ Token.reading :=
      funext fun t => by simp [classified?, Token.reading]
    rw [hchars, filterMap_split_spaced (fun _ => rfl) hlexemes, hreading, List.filterMap_eq_map]
  have hsource := map_reading_tokens source
  rw [hts, List.map_append] at hsource
  rw [hrespelled]
  refine ⟨errors_eq_nil_of_split ?_, ?_⟩
  · rw [hchars, filterMap_split_spaced (fun _ => rfl) hlexemes]
    simp [error?]
  · rw [map_reading_tokens, htokens, hts, List.map_append, (List.append_inj' hsource rfl).2]

end Lox
