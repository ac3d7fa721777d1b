import Lox.Proofs.Grammar.Spelled
import Lox.Proofs.Program.Parenthesized

namespace Lox

open Grammar

namespace Entry

/-- By how many trees there are more when the entry was read. -/
def gain : Entry → Int
  | number _ => 1
  | one _ => 0
  | two _ => -1

/-- For a minus sign, whether it has one operand only. -/
def sign? : Entry → Option Bool
  | number _ => none
  | one t => if t.kind = .minus then some true else none
  | two t => if t.kind = .minus then some false else none

/-- Entries of the same spelling. A minus sign may have one operand or two. -/
inductive Alike : Entry → Entry → Prop
  | number (x : Float) : Alike (.number x) (.number x)
  | one {t u : Token} (h : t.reading = u.reading) : Alike (.one t) (.one u)
  | two {t u : Token} (h : t.reading = u.reading) : Alike (.two t) (.two u)
  | fewer {t u : Token} (ht : t.kind = .minus) (hu : u.kind = .minus) : Alike (.one t) (.two u)
  | more {t u : Token} (ht : t.kind = .minus) (hu : u.kind = .minus) : Alike (.two t) (.one u)

variable {x y : Entry} {xs ys : List Entry}

theorem reading_of_lexeme {t u : Token} (ht : Lexeme t.lexeme.toList t.kind t.literal)
    (hu : Lexeme u.lexeme.toList u.kind u.literal) (h : t.lexeme = u.lexeme) :
    t.reading = u.reading := by
  rw [h] at ht
  obtain ⟨hk, hv⟩ := ht.unique hu
  simp only [Token.reading, hk, h, hv]

theorem text_ne_lexeme {bits : Nat} (hb : bits ≤ Number.infinity) {t : Token}
    (ht : Lexeme t.lexeme.toList t.kind t.literal)
    (hk : isUnary t.kind = true ∨ isBinary t.kind = true) :
    Number.text (Number.ofMagnitude bits) ≠ t.lexeme := by
  intro h
  obtain ⟨k, v, hl, hv⟩ := Number.exists_lexeme_text hb
  rw [h] at hl
  obtain ⟨rfl, -⟩ := hl.unique ht
  obtain ⟨hn, -⟩ | ⟨hn, -⟩ := hv <;> rw [hn] at hk <;> exact absurd hk (by decide)

theorem kind_eq_minus {k : Kind} (h : isUnary k = true) (h' : isBinary k = true) : k = .minus := by
  cases k <;> first | rfl | exact absurd h (by decide) | exact absurd h' (by decide)

theorem alike_of_word (hx : x.IsSpelled) (hy : y.IsSpelled) (h : x.word = y.word) : Alike x y := by
  cases hx with
  | number hb =>
    cases hy with
    | number hb' =>
      rw [Number.ofMagnitude_of_text hb hb' h]
      exact .number _
    | one hu hk => exact absurd h (text_ne_lexeme hb hu (.inl hk))
    | two hu hk => exact absurd h (text_ne_lexeme hb hu (.inr hk))
  | @one t ht hk =>
    cases hy with
    | number hb => exact absurd h.symm (text_ne_lexeme hb ht (.inl hk))
    | one hu _ => exact .one (reading_of_lexeme ht hu h)
    | @two u hu hk' =>
      have hkind : t.kind = u.kind := congrArg Prod.fst (reading_of_lexeme ht hu h)
      have hminus := kind_eq_minus (hkind ▸ hk) hk'
      exact .fewer (hkind.trans hminus) hminus
  | @two t ht hk =>
    cases hy with
    | number hb => exact absurd h.symm (text_ne_lexeme hb ht (.inr hk))
    | @one u hu hk' =>
      have hkind : t.kind = u.kind := congrArg Prod.fst (reading_of_lexeme ht hu h)
      have hminus := kind_eq_minus hk' (hkind ▸ hk)
      exact .more (hkind.trans hminus) hminus
    | two hu _ => exact .two (reading_of_lexeme ht hu h)

theorem alike_of_words (hx : ∀ x ∈ xs, x.IsSpelled) (hy : ∀ y ∈ ys, y.IsSpelled)
    (h : xs.map word = ys.map word) :
    List.Forall₂ Alike xs ys := by
  induction xs generalizing ys with
  | nil =>
    rw [List.map_eq_nil_iff.1 h.symm]
    exact .nil
  | cons x xs ih =>
    cases ys with
    | nil => cases h
    | cons y ys =>
      obtain ⟨hx, hxs⟩ := List.forall_mem_cons.1 hx
      obtain ⟨hy, hys⟩ := List.forall_mem_cons.1 hy
      obtain ⟨hword, hwords⟩ := List.cons.inj h
      exact .cons (alike_of_word hx hy hword) (ih hxs hys hwords)

theorem sign?_eq {t u : Token} (h : t.reading = u.reading) :
    (one t).sign? = (one u).sign? ∧ (two t).sign? = (two u).sign? := by
  have hk : t.kind = u.kind := congrArg Prod.fst h
  simp only [sign?, hk, and_self]

theorem isSome_sign? (h : Alike x y) : x.sign?.isSome = y.sign?.isSome := by
  cases h with
  | number => rfl
  | one h => rw [(sign?_eq h).1]
  | two h => rw [(sign?_eq h).2]
  | fewer ht hu | more ht hu => simp [sign?, ht, hu]

theorem relocate_of_sign? (h : Alike x y) (hs : x.sign? = y.sign?) :
    x.relocate nowhere = y.relocate nowhere := by
  cases h with
  | number => rfl
  | one h | two h => simp only [relocate, Token.relocate_nowhere h]
  | fewer ht hu | more ht hu => simp [sign?, ht, hu] at hs

theorem map_relocate_of_signs (h : List.Forall₂ Alike xs ys)
    (hs : xs.filterMap sign? = ys.filterMap sign?) :
    xs.map (relocate nowhere) = ys.map (relocate nowhere) := by
  induction h with
  | nil => rfl
  | @cons x y xs ys hxy _ ih =>
    have hsigns : x.sign? = y.sign? ∧ xs.filterMap sign? = ys.filterMap sign? := by
      have hsome := isSome_sign? hxy
      cases hx : x.sign? <;> cases hy : y.sign? <;> simp_all
    rw [List.map_cons, List.map_cons, relocate_of_sign? hxy hsigns.1, ih hsigns.2]

theorem gain_le (h : Alike x y) (hs : x.sign? ≠ some true) :
    x.gain ≤ y.gain ∧ (x.gain = y.gain → x.sign? = y.sign?) := by
  cases h with
  | number => exact ⟨Int.le_refl _, fun _ => rfl⟩
  | one h => exact ⟨Int.le_refl _, fun _ => (sign?_eq h).1⟩
  | two h => exact ⟨Int.le_refl _, fun _ => (sign?_eq h).2⟩
  | fewer ht _ => exact absurd (if_pos ht) hs
  | more => exact ⟨(by decide : (-1 : Int) ≤ 0), fun h => absurd h (by decide : (-1 : Int) ≠ 0)⟩

/-- If no minus sign of the first text has one operand only, then at most as many trees are left of
it as of the second, and fewer if there is such a sign in the second. -/
theorem sum_gain_le (h : List.Forall₂ Alike xs ys) (hs : ∀ x ∈ xs, x.sign? ≠ some true) :
    (xs.map gain).sum ≤ (ys.map gain).sum ∧
      ((xs.map gain).sum = (ys.map gain).sum → xs.filterMap sign? = ys.filterMap sign?) := by
  induction h with
  | nil => exact ⟨Int.le_refl _, fun _ => rfl⟩
  | @cons x y xs ys hxy _ ih =>
    obtain ⟨hx, hxs⟩ := List.forall_mem_cons.1 hs
    obtain ⟨hle, heq⟩ := gain_le hxy hx
    obtain ⟨hles, heqs⟩ := ih hxs
    simp only [List.map_cons, List.sum_cons]
    refine ⟨Int.add_le_add hle hles, fun hsum => ?_⟩
    -- no entry gains less than its counterpart, for what it lacks could not be made up for
    rw [List.filterMap_cons, List.filterMap_cons, heq (by omega), heqs (by omega)]

end Entry

namespace Expr

def signs (e : Expr) : List Bool := e.entries.filterMap Entry.sign?

theorem signs_ungrouped (e : Expr) : e.ungrouped.signs = e.signs := by
  rw [signs, entries_ungrouped, signs]

theorem signs_relocate (place : Int → Int) (e : Expr) : (e.relocate place).signs = e.signs := by
  have hsign : Entry.sign? ∘ Entry.relocate place = Entry.sign? := funext fun x => by cases x <;> rfl
  rw [signs, entries_relocate, List.filterMap_map, hsign, signs]

theorem sum_gain {e : Expr} (h : e.IsArithmetic) : (e.entries.map Entry.gain).sum = 1 := by
  induction h with
  | number => rfl
  | one t _ ih => simp [entries, ih, Entry.gain]
  | two t _ _ iha ihb => simp [entries, iha, ihb, Entry.gain]
  | group _ ih => exact ih

theorem signs_eq_of_alike {a b : Expr} (ha : a.IsArithmetic) (hb : b.IsArithmetic)
    (h : List.Forall₂ Entry.Alike a.entries b.entries) (hs : true ∉ a.signs) : a.signs = b.signs := by
  have hsign : ∀ x ∈ a.entries, x.sign? ≠ some true :=
    fun x hx ht => hs (List.mem_filterMap.2 ⟨x, hx, ht⟩)
  exact (Entry.sum_gain_le h hsign).2 (by rw [sum_gain ha, sum_gain hb])

/-- Expressions with the same numbers and operators differ in groupings and lines only, exactly if
the same of their minus signs have one operand only. -/
theorem ungrouped_iff_signs {a b : Expr} (ha : a.IsArithmetic) (hb : b.IsArithmetic)
    (h : List.Forall₂ Entry.Alike a.entries b.entries) :
    a.ungrouped.relocate nowhere = b.ungrouped.relocate nowhere ↔ a.signs = b.signs := by
  constructor
  · intro hu
    have hsigns := congrArg signs hu
    rwa [signs_relocate, signs_relocate, signs_ungrouped, signs_ungrouped] at hsigns
  · intro hs
    rw [← ungrouped_relocate, ← ungrouped_relocate]
    apply ungrouped_of_entries (ha.relocate nowhere) (hb.relocate nowhere)
    rw [entries_relocate, entries_relocate, Entry.map_relocate_of_signs h hs]

end Expr

end Lox
