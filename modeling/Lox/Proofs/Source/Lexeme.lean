import Mathlib.Data.List.TakeWhile
import Lox.Source.Scan

namespace Lox

def marks : List (List Char × Kind) :=
  [(['('], .leftParen), ([')'], .rightParen), (['\x7b'], .leftBrace), (['\x7d'], .rightBrace),
   ([','], .comma), (['.'], .dot), (['-'], .minus), (['+'], .plus), ([';'], .semicolon),
   (['/'], .slash), (['*'], .star), (['!'], .bang), (['!', '='], .bangEqual), (['='], .equal),
   (['=', '='], .equalEqual), (['>'], .greater), (['>', '='], .greaterEqual), (['<'], .less),
   (['<', '='], .lessEqual)]

def numeral (whole places : List Char) : Value :=
  .num (Number.ofMagnitude (Number.Decimal.ofChars whole places).magnitude)

inductive Lexeme : List Char → Kind → Value → Prop
  | mark {t : List Char} {k : Kind} (h : (t, k) ∈ marks) : Lexeme t k .nil
  | string {body : List Char} (h : '"' ∉ body) :
      Lexeme ('"' :: (body ++ ['"'])) .string (.str (String.ofList body))
  | whole {c : Char} {ds : List Char} (hc : c.isDigit = true) (h : ∀ d ∈ ds, d.isDigit = true) :
      Lexeme (c :: ds) .number (numeral (c :: ds) [])
  | decimal {c f : Char} {ds fs : List Char} (hc : c.isDigit = true) (h : ∀ d ∈ ds, d.isDigit = true)
      (hf : f.isDigit = true) (h' : ∀ d ∈ fs, d.isDigit = true) :
      Lexeme (c :: (ds ++ '.' :: f :: fs)) .number (numeral (c :: ds) (f :: fs))
  | word {c : Char} {cs : List Char} (hc : Piece.isLetter c = true)
      (h : ∀ d ∈ cs, Piece.isWordChar d = true) :
      Lexeme (c :: cs) (Kind.ofWord (String.ofList (c :: cs))) .nil

namespace Piece

theorem first_of_isWordChar {c : Char} (h : isWordChar c = true) (cs : List Char) :
    first c cs = if c.isDigit then ofDigit c cs else ofLetter c cs := by
  have hs : single? c = none := by
    unfold single?
    split <;> first | rfl | exact absurd h (by decide)
  have hd : double? c = none := by
    unfold double?
    split <;> first | rfl | exact absurd h (by decide)
  have hslash : c ≠ '/' := by
    rintro rfl
    exact absurd h (by decide)
  have hspace : isSpace c = false := Bool.eq_false_iff.2 fun hc => by
    simp only [isSpace, Bool.or_eq_true, beq_iff_eq] at hc
    obtain ((rfl | rfl) | rfl) | rfl := hc <;> exact absurd h (by decide)
  have hquote : c ≠ '"' := by
    rintro rfl
    exact absurd h (by decide)
  have hl : c.isDigit = false → isLetter c = true := by
    intro hd
    simpa [isWordChar, hd] using h
  unfold first
  rw [hs, hd]
  cases hd : c.isDigit with
  | true => simp [hslash, hspace, hquote]
  | false => simp [hslash, hspace, hquote, hl hd]

theorem first_of_isDigit {c : Char} (h : c.isDigit = true) (cs : List Char) :
    first c cs = ofDigit c cs := by
  rw [first_of_isWordChar (by simp [isWordChar, h]), if_pos h]

theorem first_of_isLetter {c : Char} (h : isLetter c = true) (cs : List Char) :
    first c cs = ofLetter c cs := by
  have hd : c.isDigit = false := Bool.eq_false_iff.2 fun hd => by
    have hn : 48 ≤ c.toNat ∧ c.toNat ≤ 57 := Char.isDigit_iff_toNat.1 hd
    change (decide (65 ≤ c.toNat ∧ c.toNat ≤ 90) || (decide (97 ≤ c.toNat) && decide (c.toNat ≤ 122)) ||
      c == '_') = true at h
    simp only [Bool.or_eq_true, Bool.and_eq_true, decide_eq_true_eq, beq_iff_eq] at h
    obtain (h | h) | rfl := h
    · omega
    · omega
    · exact absurd hd (by decide)
  rw [first_of_isWordChar (by simp [isWordChar, h])]
  simp [hd]

theorem first_of_mem_marks :
    ∀ m ∈ marks, ∀ c t, m.1 = c :: t → first c t = token m.2 (c :: t) .nil := by
  simp only [marks, List.forall_mem_cons]
  and_intros
  all_goals first
    | rintro c t ⟨⟩
      rfl
    | intro m hm
      cases hm

theorem bne_of_not_mem {a : Char} {l : List Char} (h : a ∉ l) : ∀ c ∈ l, (c != a) = true := by
  intro c hc
  have hne : c ≠ a := fun he => h (he ▸ hc)
  simpa using hne

theorem digits_before_point {ds : List Char} (h : ∀ d ∈ ds, d.isDigit = true) (rest : List Char) :
    (ds ++ '.' :: rest).takeWhile Char.isDigit = ds ∧ (ds ++ '.' :: rest).dropWhile Char.isDigit =
      '.' :: rest := by
  have hp : ('.' : Char).isDigit = false := by decide
  constructor
  · simp [List.takeWhile_append_of_pos h, hp]
  · simp [List.dropWhile_append_of_pos h, hp]

theorem ofQuote_of_close {body : List Char} (h : '"' ∉ body) (rest : List Char) :
    ofQuote (body ++ '"' :: rest) = token .string ('"' :: (body ++ ['"']))
      (.str (String.ofList body)) := by
  have hb := bne_of_not_mem h
  unfold ofQuote
  rw [List.takeWhile_append_of_pos hb, List.dropWhile_append_of_pos hb]
  simp

theorem ofQuote_of_unclosed {body : List Char} (h : '"' ∉ body) :
    ofQuote body = unclosed ('"' :: body) := by
  have hb := bne_of_not_mem h
  have ht : body.takeWhile (· != '"') = body := List.takeWhile_eq_self_iff.2 hb
  have hd : body.dropWhile (· != '"') = [] := List.dropWhile_eq_nil_iff.2 hb
  simp [ofQuote, ht, hd]

end Piece

open Piece

variable {t : List Char} {k : Kind} {v : Value}

theorem Lexeme.first_eq {c : Char} (h : Lexeme (c :: t) k v) : first c t = token k (c :: t) v := by
  cases h with
  | mark h => exact first_of_mem_marks _ h c t rfl
  | string h => exact ofQuote_of_close h []
  | whole hc h =>
    have ht : t.takeWhile Char.isDigit = t := List.takeWhile_eq_self_iff.2 h
    have hd : t.dropWhile Char.isDigit = [] := List.dropWhile_eq_nil_iff.2 h
    simp [first_of_isDigit hc, ofDigit, ht, hd, fraction, numeral]
  | @decimal _ f ds fs hc h hf h' =>
    have hfs : fs.takeWhile Char.isDigit = fs := List.takeWhile_eq_self_iff.2 h'
    obtain ⟨ht, hd⟩ := digits_before_point h (f :: fs)
    simp [first_of_isDigit hc, ofDigit, ht, hd, fraction, hf, hfs, numeral]
  | word hc h =>
    have ht : t.takeWhile isWordChar = t := List.takeWhile_eq_self_iff.2 h
    rw [first_of_isLetter hc, ofLetter, ht]

theorem Lexeme.ne_nil (h : Lexeme t k v) : t ≠ [] := by
  cases h with
  | mark h =>
    have hm : ∀ m ∈ marks, m.1 ≠ [] := by decide
    exact hm _ h
  | string | whole | decimal | word => exact List.cons_ne_nil _ _

theorem Kind.ofWord_ne (s : String) :
    ofWord s ≠ .number ∧ ofWord s ≠ .string ∧ ofWord s ≠ .leftParen ∧ ofWord s ≠ .eof := by
  unfold ofWord
  split <;> decide

theorem Lexeme.kind_ne_eof (h : Lexeme t k v) : k ≠ .eof := by
  cases h with
  | mark h =>
    rintro rfl
    have hm : ∀ m ∈ marks, m.2 ≠ .eof := by decide
    exact hm _ h rfl
  | string | whole | decimal => simp
  | word => exact (Kind.ofWord_ne _).2.2.2

theorem Lexeme.eq_num {t : List Char} {v : Value} (h : Lexeme t .number v) :
    ∃ bits, bits ≤ Number.infinity ∧ v = .num (Number.ofMagnitude bits) := by
  generalize hk : Kind.number = k at h
  cases h with
  | mark h =>
    have hm : ∀ m ∈ marks, m.2 ≠ .number := by decide
    exact absurd hk.symm (hm _ h)
  | string => cases hk
  | whole | decimal => exact ⟨_, Nat.min_le_right _ _, rfl⟩
  | word => exact absurd hk.symm (Kind.ofWord_ne _).1

theorem Lexeme.eq_str {t : List Char} {v : Value} (h : Lexeme t .string v) :
    ∃ body, '"' ∉ body ∧ v = .str (String.ofList body) := by
  generalize hk : Kind.string = k at h
  cases h with
  | mark h =>
    have hm : ∀ m ∈ marks, m.2 ≠ .string := by decide
    exact absurd hk.symm (hm _ h)
  | string h => exact ⟨_, h, rfl⟩
  | whole | decimal => cases hk
  | word => exact absurd hk.symm (Kind.ofWord_ne _).2.1

theorem Lexeme.unique {k' : Kind} {v' : Value} (h : Lexeme t k v) (h' : Lexeme t k' v') :
    k = k' ∧ v = v' := by
  cases t with
  | nil => exact absurd rfl h.ne_nil
  | cons c t =>
    have he := h.first_eq.symm.trans h'.first_eq
    simp only [Piece.token.injEq] at he
    exact ⟨he.1, he.2.2⟩

theorem mem_marks_of_single? {c : Char} (h : single? c = some k) : ([c], k) ∈ marks := by
  unfold single? at h
  split at h <;> cases h <;> decide

theorem mem_marks_of_double? {c : Char} {k' : Kind} (h : double? c = some (k, k')) :
    ([c], k) ∈ marks ∧ ([c, '='], k') ∈ marks := by
  unfold double? at h
  split at h <;> cases h <;> decide

theorem lexeme_ofDigit {c : Char} (hc : c.isDigit = true) (cs : List Char) :
    ∃ t v, ofDigit c cs = token .number t v ∧ Lexeme t .number v := by
  have hds : ∀ d ∈ cs.takeWhile Char.isDigit, d.isDigit = true := fun d hd => List.mem_takeWhile_imp hd
  unfold ofDigit
  refine ⟨_, _, rfl, ?_⟩
  cases hf : fraction (cs.dropWhile Char.isDigit) with
  | nil => exact .whole hc hds
  | cons f fs =>
    have hfs : ∀ d ∈ f :: fs, d.isDigit = true := by
      rw [← hf]
      unfold fraction
      split
      · exact fun d hd => List.mem_takeWhile_imp hd
      · simp
    have hl := Lexeme.decimal hc hds (hfs f (by simp)) fun d hd => hfs d (List.mem_cons_of_mem f hd)
    simpa [numeral] using hl

theorem length_le_takeWhile {p : Char → Bool} {l : List Char} (h : ∀ c ∈ l, p c = true)
    (rest : List Char) :
    l.length ≤ ((l ++ rest).takeWhile p).length := by
  rw [List.takeWhile_append_of_pos h, List.length_append]
  omega

/-- No token that starts a text is longer than its first piece. -/
theorem Lexeme.length_le {c : Char} {cs : List Char} (h : Lexeme t k v) (ht : t <+: c :: cs) :
    t.length ≤ (first c cs).text.length := by
  have hpos := List.length_pos_iff.2 (first_text_ne_nil c cs)
  obtain ⟨rest, hr⟩ := ht
  cases h with
  | mark h =>
    have hm : ∀ m ∈ marks, m.1.length = 1 ∨
        m.1 ∈ [['!', '='], ['=', '='], ['>', '='], ['<', '=']] := by decide
    obtain h1 | h2 := hm _ h
    · simp only at h1
      omega
    · simp only [List.mem_cons, List.not_mem_nil, or_false] at h2
      obtain rfl | rfl | rfl | rfl := h2
      all_goals
        cases hr
        exact Nat.le_refl 2
  | @string body h =>
    simp only [List.cons_append, List.append_assoc, List.nil_append, List.cons.injEq] at hr
    obtain ⟨rfl, rfl⟩ := hr
    have hf : first '"' (body ++ '"' :: rest) = ofQuote (body ++ '"' :: rest) := rfl
    rw [hf, ofQuote_of_close h]
    exact Nat.le_refl _
  | @whole d ds hc h =>
    rw [List.cons_append, List.cons.injEq] at hr
    obtain ⟨rfl, rfl⟩ := hr
    have hl := length_le_takeWhile h rest
    rw [first_of_isDigit hc]
    simp only [ofDigit, text]
    split <;> simp only [List.length_cons, List.length_append] <;> omega
  | @decimal d f ds fs hc h hf h' =>
    simp only [List.cons_append, List.append_assoc, List.cons.injEq] at hr
    obtain ⟨rfl, rfl⟩ := hr
    have hl := length_le_takeWhile h' rest
    obtain ⟨ht, hd⟩ := digits_before_point h (f :: (fs ++ rest))
    rw [first_of_isDigit hc]
    simp only [ofDigit, text, ht, hd, fraction, List.takeWhile_cons_of_pos hf, List.cons_ne_nil,
      if_false, List.length_cons, List.length_append]
    omega
  | @word d ds hc h =>
    rw [List.cons_append, List.cons.injEq] at hr
    obtain ⟨rfl, rfl⟩ := hr
    have hl := length_le_takeWhile h rest
    rw [first_of_isLetter hc]
    simp only [ofLetter, text, List.length_cons]
    omega

end Lox
