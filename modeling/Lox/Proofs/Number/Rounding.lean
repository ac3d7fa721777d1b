import Lox.Number.Decimal

namespace Lox.Number

theorem roundDiv_mul_right (num den : Nat) {c : Nat} (hc : 0 < c) :
    roundDiv (num * c) (den * c) = roundDiv num den := by
  have hlow : 2 * (num % den * c) < den * c ↔ 2 * (num % den) < den := by
    rw [← Nat.mul_assoc, Nat.mul_lt_mul_right hc]
  have hhigh : den * c < 2 * (num % den * c) ↔ den < 2 * (num % den) := by
    rw [← Nat.mul_assoc, Nat.mul_lt_mul_right hc]
  simp only [roundDiv, Nat.mul_div_mul_right _ _ hc, Nat.mul_mod_mul_right, hlow, hhigh]

theorem roundDiv_mul_self (q : Nat) {den : Nat} (h : 0 < den) : roundDiv (q * den) den = q := by
  simp [roundDiv, Nat.mul_div_cancel _ h, h]

theorem nearest_mul_right (num den : Nat) {c : Nat} (hc : 0 < c) :
    nearest (num * c) (den * c) = nearest num den := by
  have hnum : num * c * Nat.pow 2 1074 = num * Nat.pow 2 1074 * c := Nat.mul_right_comm _ _ _
  have hden : ∀ k, den * c * Nat.pow 2 k = den * Nat.pow 2 k * c := fun k => Nat.mul_right_comm _ _ _
  simp only [nearest, hnum, hden, Nat.mul_div_mul_right _ _ hc, roundDiv_mul_right _ _ hc]

def units (bits : Nat) : Nat := significand bits * Nat.pow 2 (scale bits)

theorem scale_mul_add_significand (bits : Nat) :
    scale bits * Nat.pow 2 52 + significand bits = bits := by
  have h : scale bits * Nat.pow 2 52 ≤ bits :=
    Nat.le_trans (Nat.mul_le_mul_right _ (Nat.sub_le _ _)) (Nat.div_mul_le_self _ _)
  exact Nat.add_sub_of_le h

theorem log2_units (bits : Nat) : (units bits).log2 - 52 = scale bits := by
  have hsum := scale_mul_add_significand bits
  have hdiv : bits / 2 ^ 52 * 2 ^ 52 ≤ bits := Nat.div_mul_le_self _ _
  have hlt : bits < bits / 2 ^ 52 * 2 ^ 52 + 2 ^ 52 := Nat.lt_div_mul_add (by decide)
  have hscale : scale bits = bits / 2 ^ 52 - 1 := rfl
  simp only [Nat.pow_eq] at hsum
  by_cases hs : scale bits = 0
  · have hb : significand bits < 2 ^ 53 := by omega
    have hlog : (significand bits).log2 < 53 := by
      by_cases h0 : significand bits = 0
      · simp [h0]
      · exact (Nat.log2_lt h0).2 hb
    rw [units, hs, Nat.pow_eq, Nat.pow_zero, Nat.mul_one]
    omega
  · have hlow : 2 ^ 52 ≤ significand bits := by omega
    have hhigh : significand bits < 2 ^ 53 := by omega
    have hpos : 0 < 2 ^ scale bits := Nat.two_pow_pos _
    have hne : units bits ≠ 0 := Nat.mul_ne_zero (by omega) (Nat.ne_of_gt hpos)
    have hlog : (units bits).log2 = 52 + scale bits := by
      refine (Nat.log2_eq_iff hne).2 ⟨?_, ?_⟩
      · rw [Nat.pow_add]
        exact Nat.mul_le_mul_right _ hlow
      · rw [Nat.add_right_comm, Nat.pow_add]
        exact Nat.mul_lt_mul_of_pos_right hhigh hpos
    omega

theorem nearest_of_eq {bits num den : Nat} (hb : bits ≤ infinity) (hd : 0 < den)
    (h : num * Nat.pow 2 1074 = units bits * den) : nearest num den = bits := by
  have hround : roundDiv (units bits * den) (den * Nat.pow 2 (scale bits)) = significand bits := by
    rw [units, Nat.mul_assoc, Nat.mul_comm (Nat.pow 2 _)]
    exact roundDiv_mul_self _ (Nat.mul_pos hd (Nat.two_pow_pos _))
  simp only [nearest, h, Nat.mul_div_cancel _ hd, log2_units, hround]
  rw [scale_mul_add_significand, Nat.min_eq_left hb]

namespace Decimal

/-- With places for all powers of two that are missing, no digit is lost. -/
theorem mul_pow_sub_mul_pow_sub (n s m : Nat) :
    n * Nat.pow 2 (s - m) * Nat.pow 5 (m - s) * Nat.pow 2 m = n * Nat.pow 2 s * Nat.pow 10 (m - s) := by
  simp only [Nat.pow_eq]
  have hten : 10 ^ (m - s) = 2 ^ (m - s) * 5 ^ (m - s) := Nat.mul_pow 2 5 _
  have htwo : s - m + m = s + (m - s) := by omega
  calc n * 2 ^ (s - m) * 5 ^ (m - s) * 2 ^ m
      = n * 2 ^ (s - m + m) * 5 ^ (m - s) := by rw [Nat.pow_add, Nat.mul_right_comm, Nat.mul_assoc n]
    _ = n * 2 ^ s * 10 ^ (m - s) := by rw [htwo, Nat.pow_add, hten, ← Nat.mul_assoc, ← Nat.mul_assoc]

theorem magnitude_exact {bits : Nat} (hb : bits ≤ infinity) : (exact bits).magnitude = bits := by
  rw [magnitude]
  refine nearest_of_eq hb (Nat.pow_pos (by decide)) ?_
  rw [exact, units]
  generalize 1074 = m
  exact mul_pow_sub_mul_pow_sub _ _ _

theorem magnitude_dropZeros (n p : Nat) : (dropZeros n p).magnitude = magnitude ⟨n, p⟩ := by
  fun_induction dropZeros n p with
  | case1 => rfl
  | case2 n p h ih =>
    have hn : n / 10 * 10 = n := Nat.div_mul_cancel (Nat.dvd_of_mod_eq_zero h)
    have hp : Nat.pow 10 (p + 1) = Nat.pow 10 p * 10 := rfl
    rw [ih, magnitude, magnitude, hp, ← nearest_mul_right _ _ (c := 10) (by decide), hn]
  | case3 => rfl

theorem magnitude_trim (d : Decimal) : d.trim.magnitude = d.magnitude := magnitude_dropZeros _ _

theorem magnitude_of_candidates {bits q grid : Nat} {d below above d' : Decimal}
    (h : (match below.magnitude == bits, above.magnitude == bits with
      | true, true => some (if roundDiv d.digits grid = q then below else above)
      | true, false => some below
      | false, true => some above
      | false, false => none) = some d') : d'.magnitude = bits := by
  generalize hbelow : (below.magnitude == bits) = x at h
  generalize habove : (above.magnitude == bits) = y at h
  cases x <;> cases y <;> cases h
  · exact beq_iff_eq.1 habove
  · exact beq_iff_eq.1 hbelow
  · split
    · exact beq_iff_eq.1 hbelow
    · exact beq_iff_eq.1 habove

attribute [local irreducible] magnitude in
theorem magnitude_of_onGrid {bits grid : Nat} {d d' : Decimal} (h : onGrid bits d grid = some d') :
    d'.magnitude = bits := by
  -- unfolded where it is applied, the choice would be evaluated, and with it the magnitudes
  generalize hf : onGrid = f at h
  delta onGrid at hf
  subst hf
  exact magnitude_of_candidates h

/-- What is written is read back. -/
theorem magnitude_shortest {bits : Nat} (hb : bits ≤ infinity) : (shortest bits).magnitude = bits := by
  simp only [shortest, magnitude_trim]
  cases hf : (List.range' 1 17).findSome? _ with
  | none => exact magnitude_exact hb
  | some d =>
    obtain ⟨n, -, hn⟩ := List.exists_of_findSome?_eq_some hf
    exact magnitude_of_onGrid hn

end Decimal

end Lox.Number
