import Lox.Proofs.Source.Seam

namespace Lox

open Piece

/-- The characters that can go on with a token, or make a comment of it. -/
def goesOn (c : Char) : Bool := isWordChar c || ['.', '=', '/', '*'].contains c

def Delimited (cs : List Char) : Prop := ∀ c ∈ cs.head?, goesOn c = false

theorem delimited_nil : Delimited [] := by simp [Delimited]

theorem delimited_cons {c : Char} (h : goesOn c = false) (cs : List Char) : Delimited (c :: cs) := by
  simpa [Delimited] using h

variable {c : Char} {t rest : List Char} {k : Kind} {v : Value}

theorem Delimited.span {p : Char → Bool} (hp : ∀ c, p c = true → goesOn c = true) (hr : Delimited rest)
    (ht : ∀ c ∈ t, p c = true) : (t ++ rest).takeWhile p = t ∧ (t ++ rest).dropWhile p = rest := by
  have hstop : rest.takeWhile p = [] ∧ rest.dropWhile p = rest := by
    cases rest with
    | nil => exact ⟨rfl, rfl⟩
    | cons d ds =>
      have hd : ¬ p d = true := fun h => absurd (hp d h) (by simp [hr d rfl])
      exact ⟨List.takeWhile_cons_of_neg hd, List.dropWhile_cons_of_neg hd⟩
  rw [List.takeWhile_append_of_pos ht, List.dropWhile_append_of_pos ht, hstop.1, hstop.2,
    List.append_nil]
  exact ⟨rfl, rfl⟩

theorem goesOn_of_isWordChar (c : Char) (h : isWordChar c = true) : goesOn c = true := by
  simp [goesOn, h]

theorem goesOn_of_isDigit (c : Char) (h : c.isDigit = true) : goesOn c = true :=
  goesOn_of_isWordChar c (by simp [isWordChar, h])

theorem Delimited.fraction (hr : Delimited rest) : fraction rest = [] := by
  unfold Piece.fraction
  split
  · exact absurd (hr '.' rfl) (by decide)
  · rfl

theorem Delimited.ofSlash (hr : Delimited rest) : ofSlash rest = .token .slash ['/'] .nil := by
  unfold Piece.ofSlash
  split
  · exact absurd (hr '/' rfl) (by decide)
  · exact absurd (hr '*' rfl) (by decide)
  · rfl

theorem Delimited.head?_ne (hr : Delimited rest) : rest.head? ≠ some '=' :=
  fun h => absurd (hr '=' h) (by decide)

theorem first_append_of_mem_marks (hr : Delimited rest) :
    ∀ m ∈ marks, ∀ c t, m.1 = c :: t → first c (t ++ rest) = .token m.2 (c :: t) .nil := by
  simp only [marks, List.forall_mem_cons]
  and_intros
  all_goals first
    | rintro c t ⟨⟩
      first
        | exact hr.ofSlash
        | exact if_neg hr.head?_ne
        | rfl
    | intro m hm
      cases hm

theorem Lexeme.first_append (h : Lexeme (c :: t) k v) (hr : Delimited rest) :
    first c (t ++ rest) = .token k (c :: t) v := by
  cases h with
  | mark h => exact first_append_of_mem_marks hr _ h c t rfl
  | string h => exact (Lexeme.string h).first_append_of_quote rest
  | whole hc h =>
    obtain ⟨ht, hd⟩ := hr.span goesOn_of_isDigit h
    simp [first_of_isDigit hc, ofDigit, ht, hd, hr.fraction, numeral]
  | @decimal _ f ds fs hc h hf h' =>
    obtain ⟨ht, hd⟩ := digits_before_point h (f :: (fs ++ rest))
    have hp : Piece.fraction ('.' :: f :: (fs ++ rest)) = f :: fs :=
      (hr.span goesOn_of_isDigit (List.forall_mem_cons.2 ⟨hf, h'⟩)).1
    simp [first_of_isDigit hc, ofDigit, ht, hd, hp, numeral]
  | word hc h =>
    rw [first_of_isLetter hc, ofLetter, (hr.span goesOn_of_isWordChar h).1]

/-- Where a token ends is seen from the text, and so is its kind and its literal. -/
theorem Lexeme.append_inj {t' rest' : List Char} {k' : Kind} {v' : Value} (h : Lexeme t k v)
    (h' : Lexeme t' k' v') (hr : Delimited rest) (hr' : Delimited rest') (he : t ++ rest = t' ++ rest') :
    t = t' ∧ k = k' ∧ v = v' ∧ rest = rest' := by
  obtain ⟨c, t, rfl⟩ := List.exists_cons_of_ne_nil h.ne_nil
  obtain ⟨c', t', rfl⟩ := List.exists_cons_of_ne_nil h'.ne_nil
  obtain ⟨rfl, hts⟩ := List.cons.inj he
  have hf := (h.first_append hr).symm.trans ((congrArg (first c) hts).trans (h'.first_append hr'))
  obtain ⟨rfl, ht, rfl⟩ := Piece.token.inj hf
  obtain rfl := (List.cons.inj ht).2
  exact ⟨rfl, rfl, rfl, List.append_cancel_left hts⟩

end Lox
