import Lox.Proofs.Program.Relocation
import Lox.Proofs.Source.Tiling

namespace Lox

def down (lines : Nat) (line : Int) : Int := line + lines

theorem prefix_of_prefix_append_cons {α : Type} {l a b : List α} {x : α} (h : l <+: a ++ x :: b)
    (hx : x ∉ l) :
    l <+: a := by
  have hax : a ++ [x] <+: a ++ x :: b := ⟨b, by simp⟩
  obtain hl | hl := List.prefix_or_prefix_of_prefix h hax
  · obtain rfl | hl := List.prefix_concat_iff.1 hl
    · exact absurd (by simp) hx
    · exact hl
  · exact absurd (hl.subset (by simp)) hx

namespace Piece

theorem of_mem_blanks {b : Char} (h : b ∈ blanks) :
    b.isDigit = false ∧ isLetter b = false ∧ isWordChar b = false ∧ b ≠ '.' ∧ ∀ m ∈ marks, b ∉ m.1 := by
  simp only [blanks, List.mem_cons, List.not_mem_nil, or_false] at h
  obtain rfl | rfl | rfl | rfl := h <;> decide

end Piece

/-- Of all tokens only strings have blanks in them, and so they alone reach over a line end. -/
theorem Lexeme.blank_notMem {c : Char} {t : List Char} {k : Kind} {v : Value} (h : Lexeme (c :: t) k v)
    (hc : c ≠ '"') {b : Char} (hb : b ∈ Piece.blanks) : b ∉ c :: t := by
  obtain ⟨hdigit, hletter, hword, hpoint, hmarks⟩ := Piece.of_mem_blanks hb
  have hdigits : ∀ ds : List Char, (∀ d ∈ ds, d.isDigit = true) → b ∉ ds :=
    fun ds hds hn => absurd (hds _ hn) (by simp [hdigit])
  cases h with
  | mark h => exact hmarks _ h
  | string => exact absurd rfl hc
  | whole hc h => exact hdigits _ (List.forall_mem_cons.2 ⟨hc, h⟩)
  | decimal hc h hf h' =>
    have hw := hdigits _ (List.forall_mem_cons.2 ⟨hc, h⟩)
    have hp := hdigits _ (List.forall_mem_cons.2 ⟨hf, h'⟩)
    simp only [List.mem_cons, not_or] at hw hp
    simp [hw.1, hw.2, hp.1, hp.2, hpoint]
  | word hc h =>
    intro hn
    obtain rfl | hn := List.mem_cons.1 hn
    · exact absurd hc (by simp [hletter])
    · exact absurd (h _ hn) (by simp [hword])

theorem Lexeme.exists_of_quote {t : List Char} {k : Kind} {v : Value} (h : Lexeme ('"' :: t) k v) :
    ∃ body, '"' ∉ body ∧ t = body ++ ['"'] ∧ k = .string ∧ v = .str (String.ofList body) := by
  have hmarks : ∀ m ∈ marks, m.1.head? ≠ some '"' := by decide
  cases h with
  | mark h => exact absurd rfl (hmarks _ h)
  | string h => exact ⟨_, h, rfl, rfl, rfl⟩
  | whole hc | decimal hc | word hc => exact absurd hc (by decide)

theorem Lexeme.first_append_of_quote {t : List Char} {k : Kind} {v : Value} (h : Lexeme ('"' :: t) k v)
    (rest : List Char) : Piece.first '"' (t ++ rest) = .token k ('"' :: t) v := by
  obtain ⟨body, hb, rfl, rfl, rfl⟩ := h.exists_of_quote
  rw [List.append_assoc]
  exact Piece.ofQuote_of_close hb rest

theorem Lexeme.blank_notMem_of_kind {t : List Char} {k : Kind} {v : Value} (h : Lexeme t k v)
    (hk : k ≠ .string) {b : Char} (hb : b ∈ Piece.blanks) : b ∉ t := by
  obtain ⟨c, t, rfl⟩ := List.exists_cons_of_ne_nil h.ne_nil
  refine h.blank_notMem ?_ hb
  rintro rfl
  obtain ⟨-, -, -, hs, -⟩ := h.exists_of_quote
  exact hk hs

namespace Piece

def IsOpenComment (p : Piece) : Prop := ∃ body, p = .gap ('/' :: '*' :: body) ∧ ¬ ['*', '/'] <:+: body

/-- The text ends inside a block comment that is not closed. -/
def EndsInComment (cs : List Char) : Prop :=
  ∃ ps body, Tiling (ps ++ [.gap ('/' :: '*' :: body)]) cs ∧ ¬ ['*', '/'] <:+: body

theorem Fits.before_newline {p : Piece} {rest : List Char} (h : Fits p rest) (hc : ¬ p.IsOpenComment)
    (hu : ∀ t, p ≠ .unclosed t) (more : List Char) : Fits p (rest ++ '\n' :: more) := by
  cases h with
  | @token t _ k v h hl hb longest =>
    have hseam : t ++ (rest ++ '\n' :: more) = (t ++ rest) ++ '\n' :: more := (List.append_assoc ..).symm
    refine .token h ?_ ?_ fun t' k' v' h' ht' => ?_
    · rw [hseam]
      exact fun hp => hl (prefix_of_prefix_append_cons hp (by decide))
    · rw [hseam]
      exact fun hp => hb (prefix_of_prefix_append_cons hp (by decide))
    · cases t with
      | nil => exact absurd rfl h.ne_nil
      | cons c t =>
        by_cases hquote : c = '"'
        · subst hquote
          exact (h'.length_le ht').trans_eq (congrArg (List.length ∘ text) (h.first_append_of_quote _))
        · cases t' with
          | nil => exact absurd rfl h'.ne_nil
          | cons d t' =>
            obtain rfl : d = c := (List.cons_prefix_cons.1 ht').1
            rw [hseam] at ht'
            exact longest _ _ _ h'
              (prefix_of_prefix_append_cons ht' (h'.blank_notMem hquote (by decide)))
  | blank h => exact .blank h
  | @lineComment body _ h hr =>
    refine .lineComment h fun c hm => ?_
    cases rest with
    | nil => simpa using hm.symm
    | cons d ds => exact hr c hm
  | blockComment first => exact .blockComment first
  | openComment h => exact absurd ⟨_, rfl, h⟩ hc
  | stray hb h => exact .stray hb h
  | unclosed => exact absurd rfl (hu _)

theorem Fits.eq_nil_of_isOpenComment {p : Piece} {rest : List Char} (h : Fits p rest)
    (hc : p.IsOpenComment) :
    rest = [] := by
  obtain ⟨body, rfl, hn⟩ := hc
  cases h with
  | blockComment => exact absurd (List.suffix_append _ _).isInfix hn
  | openComment => rfl

theorem Tiling.append_newline {ps qs : List Piece} {cs ds : List Char} (h : Tiling ps cs)
    (hc : ¬ EndsInComment cs) (hu : ∀ p ∈ ps, ∀ t, p ≠ .unclosed t) (h' : Tiling qs ds) :
    Tiling (ps ++ .gap ['\n'] :: qs) (cs ++ '\n' :: ds) := by
  induction h with
  | nil => exact .cons (.blank (by decide)) h'
  | @cons p ps rest hf ht ih =>
    obtain ⟨hp, hps⟩ := List.forall_mem_cons.1 hu
    have ho : ¬ p.IsOpenComment := by
      intro ho
      obtain rfl := hf.eq_nil_of_isOpenComment ho
      cases ht.eq_split
      obtain ⟨body, rfl, hn⟩ := ho
      exact hc ⟨[], body, .cons hf .nil, hn⟩
    have hr : ¬ EndsInComment rest := fun ⟨ps', body, ht', hn⟩ => hc ⟨p :: ps', body, .cons hf ht', hn⟩
    rw [List.append_assoc]
    exact .cons (hf.before_newline ho hp ds) (ih hr hps)

theorem numbered_append (line : Nat) (ps qs : List Piece) :
    numbered line (ps ++ qs) =
      numbered line ps ++ numbered (line + (ps.flatMap text).count '\n') qs := by
  induction ps generalizing line with
  | nil => rfl
  | cons p ps ih =>
    simp only [List.cons_append, numbered, ih, List.flatMap_cons, List.count_append, newlines,
      Nat.add_assoc]

theorem numbered_add (line n : Nat) (ps : List Piece) :
    numbered (line + n) ps = (numbered line ps).map fun x => (x.1 + n, x.2) := by
  induction ps generalizing line with
  | nil => rfl
  | cons p ps ih => rw [numbered, numbered, List.map_cons, ← ih, Nat.add_right_comm]

theorem collect_append_newline {α : Type} {f : Nat → Piece → Option α} {g : α → α} {cs ds : List Char}
    (hf : ∀ line p, f (line + (cs.count '\n' + 1)) p = (f line p).map g)
    (hgap : ∀ line, f line (.gap ['\n']) = none) (hc : ¬ EndsInComment cs)
    (hu : ∀ p ∈ split cs, ∀ t, p ≠ .unclosed t) :
    ((numbered 1 (split (cs ++ '\n' :: ds))).filterMap fun (n, p) => f n p) =
      ((numbered 1 (split cs)).filterMap fun (n, p) => f n p) ++
        ((numbered 1 (split ds)).filterMap fun (n, p) => f n p).map g := by
  have hsplit : split (cs ++ '\n' :: ds) = split cs ++ .gap ['\n'] :: split ds :=
    ((tiling_split cs).append_newline hc hu (tiling_split ds)).eq_split.symm
  have hnumbered : numbered 1 (split (cs ++ '\n' :: ds)) = numbered 1 (split cs) ++
      (1 + cs.count '\n', .gap ['\n']) :: numbered (1 + (cs.count '\n' + 1)) (split ds) := by
    rw [hsplit, numbered_append, flatMap_text_split]
    rfl
  have hskip : ∀ xs : List (Nat × Piece),
      ((1 + cs.count '\n', .gap ['\n']) :: xs).filterMap (fun (n, p) => f n p) =
        xs.filterMap fun (n, p) => f n p := fun _ => List.filterMap_cons_none (hgap _)
  rw [hnumbered, List.filterMap_append, hskip, numbered_add, List.filterMap_map, List.map_filterMap]
  exact congrArg (fun h => _ ++ List.filterMap h _) (funext fun x => hf x.1 x.2)

theorem token?_add (n line : Nat) (p : Piece) :
    p.token? (line + n) = (p.token? line).map (Token.relocate (down n)) := by
  cases p with
  | token k t v =>
    have hline : ((line + n + t.count '\n' : Nat) : Int) = ((line + t.count '\n' : Nat) : Int) + n := by
      rw [Nat.add_right_comm]
      rfl
    exact congrArg (fun m : Int => some (⟨k, String.ofList t, v, m⟩ : Token)) hline
  | gap | stray | unclosed => rfl

theorem error?_add (n line : Nat) (p : Piece) :
    p.error? (line + n) = (p.error? line).map (LexicalError.relocate (down n)) := by
  cases p <;> rfl

end Piece

open Piece

theorem scan_tokens_eq_concat (source : String) : ∃ ts stop, (scan source).tokens = ts ++ [stop] ∧
    (∀ t ∈ ts, t.kind ≠ .eof) ∧ stop.kind = .eof := by
  refine ⟨_, _, rfl, fun t ht => ?_, rfl⟩
  have hm := List.mem_map_of_mem (f := Token.reading) ht
  rw [map_filterMap_numbered map_reading_token?] at hm
  exact (tiling_split source.toList).kind_ne_eof _ hm

theorem not_unclosed_of_errors {s : String}
    (hs : ∀ e ∈ (scan s).errors, e.kindName ≠ "UnterminatedString") :
    ∀ p ∈ split s.toList, ∀ t, p ≠ .unclosed t := by
  rintro p hp t rfl
  rw [← map_snd_numbered 1 (split _)] at hp
  obtain ⟨⟨line, _⟩, hline, rfl⟩ := List.mem_map.1 hp
  exact hs (.unterminated line) (List.mem_filterMap.2 ⟨_, hline, rfl⟩) rfl

theorem not_unclosed_of_errors_eq_nil {s : String} (hs : (scan s).errors = []) :
    ∀ p ∈ split s.toList, ∀ t, p ≠ .unclosed t := not_unclosed_of_errors (by simp [hs])

theorem scan_append_newline {s t : String} (hu : ∀ p ∈ split s.toList, ∀ t, p ≠ .unclosed t)
    (hc : ¬ EndsInComment s.toList) :
    (scan (s ++ "\n" ++ t)).tokens =
        (scan s).tokens.dropLast ++
          (scan t).tokens.map (Token.relocate (down (s.toList.count '\n' + 1))) ∧
      (scan (s ++ "\n" ++ t)).errors =
        (scan s).errors ++
          (scan t).errors.map (LexicalError.relocate (down (s.toList.count '\n' + 1))) := by
  have hchars : (s ++ "\n" ++ t).toList = s.toList ++ '\n' :: t.toList := by simp
  have hlast : ((1 + (s.toList ++ '\n' :: t.toList).count '\n' : Nat) : Int) =
      ((1 + t.toList.count '\n' : Nat) : Int) + (s.toList.count '\n' + 1 : Nat) := by
    rw [List.count_append, List.count_cons_self]
    omega
  constructor
  · simp only [scan_tokens, hchars, collect_append_newline (token?_add _) (fun _ => rfl) hc hu,
      List.dropLast_concat, List.map_append, List.append_assoc]
    exact congrArg (fun line : Int => _ ++ (_ ++ [(⟨.eof, "", .nil, line⟩ : Token)])) hlast
  · simp only [scan, hchars, collect_append_newline (error?_add _) (fun _ => rfl) hc hu]

/-- Two sources with a line end between them have the tokens of the first up to its end mark and
then those of the second, and the errors of both in this order. All that comes from the second is
stamped further down, by as many lines as the first takes. -/
theorem scan_newline_between {s t : String}
    (hs : ∀ e ∈ (scan s).errors, e.kindName ≠ "UnterminatedString") (hc : ¬ EndsInComment s.toList) :
    let place := down (1 + s.toList.count '\n')
    ∃ ts stop, (scan s).tokens = ts ++ [stop] ∧ stop.kind = .eof ∧ (∀ u ∈ ts, u.kind ≠ .eof) ∧
      (scan (s ++ "\n" ++ t)).tokens = ts ++ (scan t).tokens.map (Token.relocate place) ∧
      (scan (s ++ "\n" ++ t)).errors =
        (scan s).errors ++ (scan t).errors.map (LexicalError.relocate place) := by
  obtain ⟨ts, stop, hts, hk, hstop⟩ := scan_tokens_eq_concat s
  obtain ⟨htokens, herrors⟩ := scan_append_newline (t := t) (not_unclosed_of_errors hs) hc
  rw [Nat.add_comm] at htokens herrors
  refine ⟨ts, stop, hts, hstop, hk, ?_, herrors⟩
  rw [htokens, hts, List.dropLast_concat]

/-- The first source ends in a comment behind a number with a point at its end and a stray
character, the second in a string that is not closed. -/
theorem scan_newline_between_stray :
    let s := "x = 1.;\n#/= // y"
    let t := "=\"a\nb\" \"c"
    (∀ e ∈ (scan s).errors, e.kindName ≠ "UnterminatedString") ∧ ¬ EndsInComment s.toList ∧
      (scan (s ++ "\n" ++ t)).tokens.map (fun u => (u.kind, u.line)) =
        [(.identifier, 1), (.equal, 1), (.number, 1), (.dot, 1), (.semicolon, 1), (.slash, 2),
          (.equal, 2), (.equal, 3), (.string, 4), (.eof, 4)] ∧
      (scan (s ++ "\n" ++ t)).errors.map (fun e => (e.kindName, e.line?)) =
        [("UnrecognizedSymbol", some 2), ("UnterminatedString", some 4)] := by
  intro s t
  have hs : ∀ e ∈ (scan s).errors, e.kindName ≠ "UnterminatedString" := by decide +kernel
  have hc : ¬ EndsInComment s.toList := by
    rintro ⟨ps, body, h, -⟩
    have hl : (split s.toList).getLast?.map text = some "// y".toList := by decide +kernel
    rw [← h.eq_split, List.getLast?_concat] at hl
    cases hl
  obtain ⟨ts, stop, hts, -, -, htokens, herrors⟩ := scan_newline_between (t := t) hs hc
  have hdrop : ts = (scan s).tokens.dropLast := by rw [hts, List.dropLast_concat]
  refine ⟨hs, hc, ?_, ?_⟩
  · rw [htokens, hdrop]
    decide +kernel
  · rw [herrors]
    decide +kernel

end Lox
