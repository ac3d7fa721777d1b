import Lox.Proofs.Number.Numeral

namespace Lox.Number

/-- Digits with no zero in front, unless they are a zero. -/
structure IsWhole (cs : List Char) : Prop where
  ne_nil : cs ≠ []
  digits : ∀ c ∈ cs, c.isDigit = true
  head_ne : cs ≠ ['0'] → cs.head? ≠ some '0'

/-- A whole number, or one with a point behind it and places that do not end in a zero. -/
inductive IsPlain : List Char → Prop
  | whole {cs : List Char} (h : IsWhole cs) : IsPlain cs
  | pointed {cs fs : List Char} (h : IsWhole cs) (hne : fs ≠ []) (hd : ∀ f ∈ fs, f.isDigit = true)
      (hl : fs.getLast? ≠ some '0') : IsPlain (cs ++ '.' :: fs)

namespace Decimal

theorem head?_toDigits {n : Nat} (h : Nat.toDigits 10 n ≠ ['0']) :
    (Nat.toDigits 10 n).head? ≠ some '0' := by
  induction n using Nat.strongRecOn with
  | ind n ih =>
    by_cases hn : n < 10
    · rw [Nat.toDigits_of_lt_base hn] at h ⊢
      simpa using h
    · have hlt : n / 10 < n := Nat.div_lt_self (by omega) (by decide)
      have hrest : Nat.toDigits 10 (n / 10) ≠ ['0'] := by
        intro hz
        have hvalue := congrArg valueOf hz
        rw [valueOf_toDigits] at hvalue
        have hzero : valueOf ['0'] = 0 := rfl
        omega
      have hsplit := Nat.toDigits_of_base_le (by decide) (Nat.not_lt.1 hn)
      rw [hsplit, List.head?_append_of_ne_nil _ Nat.toDigits_ne_nil]
      exact ih _ hlt hrest

theorem isWhole_toDigits (n : Nat) : IsWhole (Nat.toDigits 10 n) where
  ne_nil := Nat.toDigits_ne_nil
  digits _ h := isDigit_of_mem_toDigits h
  head_ne := head?_toDigits

theorem valueOf_mod_of_getLast? {cs : List Char} (h : cs.getLast? = some '0') : valueOf cs % 10 = 0 := by
  obtain ⟨ds, rfl⟩ := List.getLast?_eq_some_iff.1 h
  rw [valueOf, List.foldl_append]
  exact Nat.mul_mod_right 10 _

def IsTrimmed (d : Decimal) : Prop := d.places = 0 ∨ d.digits % 10 ≠ 0

theorem isTrimmed_dropZeros (n p : Nat) : (dropZeros n p).IsTrimmed := by
  fun_induction dropZeros n p with
  | case1 n => exact .inl rfl
  | case2 n p h ih => exact ih
  | case3 n p h => exact .inr h

theorem isTrimmed_shortest (bits : Nat) : (shortest bits).IsTrimmed := isTrimmed_dropZeros _ _

theorem isPlain_plain {d : Decimal} (h : d.IsTrimmed) : IsPlain d.plain := by
  have hwhole := isWhole_toDigits (d.digits / 10 ^ d.places)
  by_cases hp : d.places = 0
  · rw [plain, if_pos hp]
    exact .whole hwhole
  · have hmod : d.digits % 10 ≠ 0 := h.resolve_left hp
    rw [plain, if_neg hp]
    refine .pointed hwhole (padded_ne_nil _ _) (fun _ => isDigit_of_mem_padded) fun hl => ?_
    have hlast := valueOf_mod_of_getLast? hl
    rw [valueOf_padded, Nat.pow_eq, Nat.mod_mod_of_dvd _ (dvd_pow_self 10 hp)] at hlast
    exact hmod hlast

end Decimal

end Lox.Number
