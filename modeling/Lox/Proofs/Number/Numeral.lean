import Mathlib
import Lox.Proofs.Number.Rounding
import Lox.Proofs.Source.Lexeme

-- the lemmas on patterns of floating point numbers come with the whole library only

namespace Lox.Number

open Float.Model.UnpackedFloat

namespace Decimal

variable {c : Char} {n width : Nat}

theorem isDigit_of_mem_toDigits (h : c ∈ Nat.toDigits 10 n) : c.isDigit = true :=
  Nat.isDigit_of_mem_toDigits (by decide) (by decide) h

theorem valueOf_toDigits (n : Nat) : valueOf (Nat.toDigits 10 n) = n := Nat.ofDigitChars_ten_toDigits

theorem isDigit_of_mem_padded (h : c ∈ padded width n) : c.isDigit = true := by
  obtain h | h := List.mem_append.1 h
  · rw [List.eq_of_mem_replicate h]
    rfl
  · exact isDigit_of_mem_toDigits h

theorem length_padded (hw : 0 < width) (h : n < 10 ^ width) : (padded width n).length = width := by
  have hle : (Nat.toDigits 10 n).length ≤ width := (Nat.length_toDigits_le_iff (by decide) hw).2 h
  rw [padded, List.length_append, List.length_replicate, Nat.sub_add_cancel hle]

theorem valueOf_append (cs ds : List Char) :
    valueOf (cs ++ ds) = 10 ^ ds.length * valueOf cs + valueOf ds := by
  calc valueOf (cs ++ ds)
      = Nat.ofDigitChars 10 ds (valueOf cs) := Nat.ofDigitChars_append 0
    _ = 10 ^ ds.length * valueOf cs + valueOf ds := Nat.ofDigitChars_eq_ofDigitChars_zero

theorem valueOf_padded (width n : Nat) : valueOf (padded width n) = n := by
  have hzeros : valueOf (List.replicate (width - (Nat.toDigits 10 n).length) '0') = 0 :=
    Nat.ofDigitChars_replicate_zero
  rw [padded, valueOf_append, hzeros, valueOf_toDigits, Nat.mul_zero, Nat.zero_add]

theorem ofChars_padded {d : Decimal} (hp : d.places ≠ 0) :
    ofChars (Nat.toDigits 10 (d.digits / 10 ^ d.places))
      (padded d.places (d.digits % 10 ^ d.places)) = d := by
  have hlt : d.digits % 10 ^ d.places < 10 ^ d.places := Nat.mod_lt _ (Nat.pow_pos (by decide))
  have hlength := length_padded (Nat.pos_of_ne_zero hp) hlt
  rw [ofChars, valueOf_append, valueOf_padded, valueOf_toDigits, hlength, Nat.div_add_mod]

theorem padded_ne_nil (width n : Nat) : padded width n ≠ [] :=
  List.append_ne_nil_of_right_ne_nil _ Nat.toDigits_ne_nil

theorem lexeme_plain (d : Decimal) : Lexeme d.plain .number (.num (ofMagnitude d.magnitude)) := by
  obtain ⟨c, cs, hwhole⟩ :=
    List.exists_cons_of_ne_nil (Nat.toDigits_ne_nil (n := d.digits / 10 ^ d.places) (b := 10))
  have hdigits : ∀ d ∈ c :: cs, d.isDigit = true := fun d hd => isDigit_of_mem_toDigits (hwhole ▸ hd)
  obtain ⟨hc, hcs⟩ := List.forall_mem_cons.1 hdigits
  by_cases hp : d.places = 0
  · have hd : ofChars (c :: cs) [] = d := by
      rw [ofChars, ← hwhole, List.append_nil, valueOf_toDigits, hp, pow_zero, Nat.div_one,
        List.length_nil, ← hp]
    have hl := Lexeme.whole hc hcs
    rw [numeral, hd, ← hwhole] at hl
    simpa [plain, hp] using hl
  · obtain ⟨f, fs, hplaces⟩ :=
      List.exists_cons_of_ne_nil (padded_ne_nil d.places (d.digits % 10 ^ d.places))
    have hfraction : ∀ d ∈ f :: fs, d.isDigit = true := fun d hd => isDigit_of_mem_padded (hplaces ▸ hd)
    obtain ⟨hf, hfs⟩ := List.forall_mem_cons.1 hfraction
    have hd := ofChars_padded hp
    rw [hwhole, hplaces] at hd
    have hl := Lexeme.decimal hc hcs hf hfs
    rw [numeral, hd, ← List.cons_append, ← hwhole, ← hplaces] at hl
    simpa [plain, hp] using hl

end Decimal

variable {bits bits' : Nat}

theorem toNat_unpackExponent (b : BitVec 64) :
    (@unpackExponent .binary64 b).toNat = b.toNat / 2 ^ 52 % 2 ^ 11 := by
  rw [unpackExponent_def, ← Nat.shiftRight_eq_div_pow]
  exact BitVec.extractLsb'_toNat ..

theorem isNaNBits_eq_false (h : bits < infinity) :
    @isNaNBits .binary64 (UInt64.ofNat bits).toBitVec = false := by
  have hexponent : @unpackExponent .binary64 (UInt64.ofNat bits).toBitVec ≠ -1#11 := by
    intro he
    have hn : bits % 2 ^ 64 / 2 ^ 52 % 2 ^ 11 = 2047 :=
      (toNat_unpackExponent _).symm.trans (congrArg BitVec.toNat he)
    have hb : bits < 2047 * 2 ^ 52 := h
    omega
  exact decide_eq_false fun h => hexponent h.1

theorem toBits_ofMagnitude (h : bits < infinity) : (ofMagnitude bits).toBits.toNat = bits := by
  have hpack : (ofMagnitude bits).toBits.toBitVec = (UInt64.ofNat bits).toBitVec :=
    (@pack_unpack .binary64 (UInt64.ofNat bits).toBitVec (by decide)).trans
      (by rw [isNaNBits_eq_false h]; rfl)
  have hb : bits < UInt64.size := Nat.lt_trans h (by decide)
  rw [UInt64.toBitVec_inj.1 hpack, UInt64.toNat_ofNat_of_lt' hb]

theorem text_ofMagnitude (h : bits < infinity) :
    text (ofMagnitude bits) = String.ofList (Decimal.shortest bits).plain := by
  have hb : bits < 2 ^ 63 := Nat.lt_trans h (by decide)
  have hm : magnitudeOf (ofMagnitude bits) = bits := by
    rw [magnitudeOf, toBits_ofMagnitude h]
    exact Nat.mod_eq_of_lt hb
  have hs : isNegative (ofMagnitude bits) = false := by
    rw [isNegative, toBits_ofMagnitude h]
    exact decide_eq_false (Nat.not_le.2 hb)
  simp [text, write, hm, hs, Nat.lt_asymm h, Nat.ne_of_lt h]

/-- As it is printed, a finite number is a token that has the number as its literal. -/
theorem lexeme_text (h : bits < infinity) :
    Lexeme (text (ofMagnitude bits)).toList .number (.num (ofMagnitude bits)) := by
  have hl := (Decimal.shortest bits).lexeme_plain
  rw [Decimal.magnitude_shortest (Nat.le_of_lt h)] at hl
  rwa [text_ofMagnitude h, String.toList_ofList]

theorem text_infinity : text (ofMagnitude infinity) = "inf" := by decide +kernel

theorem lexeme_inf : Lexeme "inf".toList .identifier .nil :=
  .word rfl (List.forall_mem_cons.2 ⟨rfl, List.forall_mem_singleton.2 rfl⟩)

theorem exists_lexeme_text (h : bits ≤ infinity) :
    ∃ k v, Lexeme (text (ofMagnitude bits)).toList k v ∧
      (k = .number ∧ v = .num (ofMagnitude bits) ∨ k = .identifier ∧ bits = infinity) := by
  obtain h | rfl := Nat.lt_or_eq_of_le h
  · exact ⟨_, _, lexeme_text h, .inl ⟨rfl, rfl⟩⟩
  · rw [text_infinity]
    exact ⟨_, _, lexeme_inf, .inr ⟨rfl, rfl⟩⟩

theorem ofMagnitude_of_text (h : bits ≤ infinity) (h' : bits' ≤ infinity)
    (ht : text (ofMagnitude bits) = text (ofMagnitude bits')) :
    ofMagnitude bits = ofMagnitude bits' := by
  obtain ⟨k, v, hl, hv⟩ := exists_lexeme_text h
  obtain ⟨k', v', hl', hv'⟩ := exists_lexeme_text h'
  rw [ht] at hl
  obtain ⟨rfl, rfl⟩ := hl.unique hl'
  obtain ⟨hk, rfl⟩ | ⟨hk, rfl⟩ := hv <;> obtain ⟨hk', hv'⟩ | ⟨hk', rfl⟩ := hv'
  · exact Value.num.inj hv'
  · cases hk.symm.trans hk'
  · cases hk.symm.trans hk'
  · rfl

end Lox.Number
