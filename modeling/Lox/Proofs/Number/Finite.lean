import Lox.Proofs.Number.Numeral

namespace Lox.Number

open Float.Model.UnpackedFloat

variable {x y : Float}

theorem toNat_unpackMantissa (b : BitVec 64) :
    (@unpackMantissa .binary64 b).toNat = b.toNat % 2 ^ 52 := by
  rw [unpackMantissa_def]
  exact BitVec.extractLsb'_toNat ..

theorem unpackExponent_ne (h : x.isFinite = true) :
    @unpackExponent .binary64 x.toBits.toBitVec ≠ -1#11 := by
  intro he
  have hfinite : (unpack .binary64 x.toBits.toBitVec).isFinite = true := h
  rw [unpack] at hfinite
  simp only [he, if_true] at hfinite
  split at hfinite <;> cases hfinite

theorem magnitudeOf_lt (h : x.isFinite = true) : magnitudeOf x < infinity := by
  have hne : x.toBits.toBitVec.toNat / 2 ^ 52 % 2 ^ 11 ≠ 2047 := by
    intro hn
    exact unpackExponent_ne h (BitVec.eq_of_toNat_eq ((toNat_unpackExponent _).trans hn))
  have hlt : x.toBits.toNat < 2 ^ 64 := x.toBits.toNat_lt
  have hbits : x.toBits.toBitVec.toNat = x.toBits.toNat := rfl
  have hmagnitude : magnitudeOf x = x.toBits.toNat % 2 ^ 63 := rfl
  have hinfinity : infinity = 2047 * 2 ^ 52 := rfl
  omega

def unsigned (b : BitVec 64) : BitVec 64 :=
  packComponents .binary64 .positive (unpackExponent b) (unpackMantissa b)

theorem toNat_unsigned (b : BitVec 64) : (unsigned b).toNat = b.toNat % 2 ^ 63 := by
  have hlt := (@unpackMantissa .binary64 b).isLt
  have hsign : Float.Model.UnpackedFloat.Sign.positive.toBitVec.toNat = 0 := rfl
  have happend : (unsigned b).toNat =
      (@unpackExponent .binary64 b).toNat * 2 ^ 52 + (@unpackMantissa .binary64 b).toNat := by
    rw [unsigned, packComponents, BitVec.toNat_append, ← Nat.shiftLeft_add_eq_or_of_lt hlt,
      Nat.shiftLeft_eq, BitVec.toNat_append, hsign, Nat.zero_shiftLeft, Nat.zero_or]
  rw [happend, toNat_unpackExponent, toNat_unpackMantissa]
  omega

theorem abs_unpack (b : BitVec 64) : (unpack .binary64 b).abs = unpack .binary64 (unsigned b) := by
  simp only [unpack, unsigned, unpackExponent_packComponents, unpackMantissa_packComponents,
    unpackSign_packComponents, Sign.ofBitVec_toBitVec]
  split_ifs <;> rfl

theorem abs_eq_ofMagnitude (h : x.isFinite = true) : x.abs = ofMagnitude (magnitudeOf x) := by
  have hnumber : @isNaNBits .binary64 (unsigned x.toBits.toBitVec) = false := by
    refine decide_eq_false fun hn => unpackExponent_ne h ?_
    rw [← hn.1, unsigned, unpackExponent_packComponents]
  have hpack : x.abs.toBits.toBitVec = unsigned x.toBits.toBitVec := by
    have habs : x.abs.toBits.toBitVec = (unpack .binary64 x.toBits.toBitVec).abs.pack .binary64 := rfl
    rw [habs, abs_unpack, pack_unpack _ (by decide), hnumber]
    rfl
  have hbits : x.abs.toBits.toNat = magnitudeOf x :=
    (congrArg BitVec.toNat hpack).trans (toNat_unsigned _)
  rw [← Float.toBits_inj, ← UInt64.toNat_inj, hbits, toBits_ofMagnitude (magnitudeOf_lt h)]

theorem eq_of_magnitudeOf (hs : isNegative x = isNegative y) (hm : magnitudeOf x = magnitudeOf y) :
    x = y := by
  rw [← Float.toBits_inj, ← UInt64.toNat_inj]
  have hx : x.toBits.toNat < 2 ^ 64 := x.toBits.toNat_lt
  have hy : y.toBits.toNat < 2 ^ 64 := y.toBits.toNat_lt
  have hsign : 2 ^ 63 ≤ x.toBits.toNat ↔ 2 ^ 63 ≤ y.toBits.toNat := decide_eq_decide.1 hs
  have hmod : x.toBits.toNat % 2 ^ 63 = y.toBits.toNat % 2 ^ 63 := hm
  omega

end Lox.Number
