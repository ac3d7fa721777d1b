import Lox.Proofs.Source.Places

namespace Lox

theorem lineOf_mono (cs : List Char) {place place' : Nat} (h : place ≤ place') :
    lineOf cs place ≤ lineOf cs place' :=
  Nat.add_le_add_left ((List.take_sublist_take_left h).count_le '\n') 1

theorem lineOf_le (cs : List Char) (place : Nat) : lineOf cs place ≤ 1 + cs.count '\n' :=
  Nat.add_le_add_left ((List.take_sublist place cs).count_le '\n') 1

namespace Piece

/-- The token of a piece that ends on a given line. -/
def tokenEndingOn? (line : Nat) : Piece → Option Token
  | token k t v => some ⟨k, String.ofList t, v, line⟩
  | _ => none

theorem token?_eq_tokenEndingOn? (line : Nat) (p : Piece) :
    p.token? line = p.tokenEndingOn? (line + p.newlines) := by
  cases p with
  | token | gap | stray | unclosed => rfl

theorem line_of_tokenEndingOn? {line : Nat} {p : Piece} {t : Token}
    (h : p.tokenEndingOn? line = some t) :
    t.line = line := by
  cases p with
  | token => cases h; rfl
  | gap | stray | unclosed => cases h

def stampedTokens (cs : List Char) (ps : List Piece) : List Token :=
  (placed 0 ps).filterMap fun (place, p) => p.tokenEndingOn? (lineOf cs (place + p.text.length))

def stampedErrors (cs : List Char) (ps : List Piece) : List LexicalError :=
  (placed 0 ps).filterMap fun (place, p) => p.error? (lineOf cs place)

theorem filterMap_token?_numbered (cs : List Char) :
    ((numbered 1 (split cs)).filterMap fun (n, p) => p.token? n) = stampedTokens cs (split cs) := by
  rw [numbered_split, List.filterMap_map]
  refine List.filterMap_congr fun (place, p) hp => ?_
  obtain ⟨rest, hrest, -⟩ := (tiling_split cs).fits_of_mem_placed [] hp
  have hline : lineOf cs (place + p.text.length) = lineOf cs place + p.newlines := lineOf_add hrest
  change p.token? (lineOf cs place) = p.tokenEndingOn? (lineOf cs (place + p.text.length))
  rw [hline, token?_eq_tokenEndingOn?]

theorem filterMap_error?_numbered (cs : List Char) :
    ((numbered 1 (split cs)).filterMap fun (n, p) => p.error? n) = stampedErrors cs (split cs) := by
  rw [numbered_split, List.filterMap_map]
  rfl

theorem pairwise_line_stampedTokens (cs : List Char) (ps : List Piece) :
    (stampedTokens cs ps).Pairwise fun t u => t.line ≤ u.line := by
  refine (pairwise_placed 0 ps).filterMap _ fun (place, p) (place', p') hle t ht u hu => ?_
  rw [line_of_tokenEndingOn? ht, line_of_tokenEndingOn? hu]
  exact Int.ofNat_le.2 (lineOf_mono cs (Nat.le_add_right_of_le hle))

theorem line_le_of_mem_stampedTokens {cs : List Char} {ps : List Piece} {t : Token}
    (ht : t ∈ stampedTokens cs ps) :
    t.line ≤ 1 + cs.count '\n' := by
  obtain ⟨⟨place, p⟩, -, ht⟩ := List.mem_filterMap.1 ht
  rw [line_of_tokenEndingOn? ht]
  exact_mod_cast lineOf_le cs (place + p.text.length)

end Piece

open Piece

/-- All stamps of a source are lines of places in it, and they never go back. -/
theorem scan_lines (source : String) :
    ∃ ps, Tiling ps source.toList ∧
      (∀ place p, (place, p) ∈ placed 0 ps → p.text <+: source.toList.drop place) ∧
      (scan source).tokens =
        stampedTokens source.toList ps ++ [⟨.eof, "", .nil, 1 + source.toList.count '\n'⟩] ∧
      (scan source).errors = stampedErrors source.toList ps ∧
      (scan source).tokens.Pairwise fun t u => t.line ≤ u.line := by
  have htiling := tiling_split source.toList
  have htokens : (scan source).tokens =
      stampedTokens source.toList (split source.toList) ++
        [⟨.eof, "", .nil, 1 + source.toList.count '\n'⟩] := by
    rw [scan_tokens, filterMap_token?_numbered]
  refine ⟨_, htiling, fun place p hp => ?_, htokens, filterMap_error?_numbered _, ?_⟩
  · obtain ⟨rest, hrest, -⟩ := htiling.fits_of_mem_placed [] hp
    exact ⟨rest, hrest.symm⟩
  · rw [htokens, List.pairwise_append]
    refine ⟨pairwise_line_stampedTokens _ _, List.pairwise_singleton _ _, fun t ht u hu => ?_⟩
    rw [List.mem_singleton.1 hu]
    exact line_le_of_mem_stampedTokens ht

end Lox
