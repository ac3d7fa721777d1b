import Lox.Proofs.Number.Worth
import Lox.Source.Token

namespace Lox

namespace Text

def isOneLine (s : String) : Bool := s.toList.all isVisible

variable {s t : String} {c mark : Char}

@[simp] theorem isOneLine_append : isOneLine (s ++ t) = (isOneLine s && isOneLine t) := by
  rw [isOneLine, String.toList_append, List.all_append, isOneLine, isOneLine]

theorem isOneLine_append_of_isOneLine (hs : isOneLine s = true) (ht : isOneLine t = true) :
    isOneLine (s ++ t) = true := by
  rw [isOneLine_append, hs, ht, Bool.and_self]

/-- Nothing ends a line but newlines, and all other characters are visible. -/
def hasVisibleLines (s : String) : Bool := s.toList.all fun c => c == '\n' || isVisible c

@[simp] theorem hasVisibleLines_append :
    hasVisibleLines (s ++ t) = (hasVisibleLines s && hasVisibleLines t) := by
  rw [hasVisibleLines, String.toList_append, List.all_append, hasVisibleLines, hasVisibleLines]

theorem hasVisibleLines_of_isOneLine (h : isOneLine s = true) : hasVisibleLines s = true :=
  List.all_eq_true.2 fun c hc => Bool.or_eq_true_iff.2 (.inr (List.all_eq_true.1 h c hc))

theorem hasVisibleLines_join {ss : List String} (h : ∀ s ∈ ss, hasVisibleLines s = true) :
    hasVisibleLines (String.join ss) = true := by
  induction ss with
  | nil => rfl
  | cons s ss ih =>
    obtain ⟨hs, hss⟩ := List.forall_mem_cons.1 h
    rw [String.join_cons, hasVisibleLines_append, hs, ih hss, Bool.and_self]

theorem newline_notMem (h : isOneLine s = true) : '\n' ∉ s.toList :=
  fun hn => absurd (List.all_eq_true.1 h _ hn) (by decide)

def isBasic (c : Char) : Bool := 0x20 ≤ c.toNat && c.toNat ≤ 0x7E

theorem isVisible_of_isBasic (h : isBasic c = true) : isVisible c = true := by
  have houtside : ∀ r ∈ invisibles, r.2 < 0x20 ∨ 0x7E < r.1 := by decide +kernel
  simp only [isBasic, Bool.and_eq_true, decide_eq_true_eq] at h
  simp only [isVisible, Bool.not_eq_true', List.any_eq_false, Bool.and_eq_true, decide_eq_true_eq]
  intro r hr
  have := houtside r hr
  omega

theorem all_isVisible_of_isBasic {cs : List Char} (h : cs.all isBasic = true) :
    cs.all isVisible = true :=
  List.all_eq_true.2 fun c hc => isVisible_of_isBasic (List.all_eq_true.1 h c hc)

theorem isOneLine_of_isBasic (h : s.toList.all isBasic = true) : isOneLine s = true :=
  all_isVisible_of_isBasic h

theorem isBasic_digitChar {d : Nat} (h : d < 16) : isBasic (Nat.digitChar d) = true := by
  have hdigits : ∀ d < 16, isBasic (Nat.digitChar d) = true := by decide
  exact hdigits d h

theorem isBasic_of_isDigit (h : c.isDigit = true) : isBasic c = true := by
  have hrange : 48 ≤ c.toNat ∧ c.toNat ≤ 57 := Char.isDigit_iff_toNat.1 h
  simp only [isBasic, Bool.and_eq_true, decide_eq_true_eq]
  omega

theorem all_isBasic_hex (width n : Nat) : (hex width n).all isBasic = true := by
  induction width generalizing n with
  | zero => rfl
  | succ width ih => simp [hex, ih, isBasic_digitChar (Nat.mod_lt n (by decide))]

theorem all_isVisible_escape (hm : isVisible mark = true) (c : Char) :
    (escape mark c).all isVisible = true := by
  have hslash : isVisible '\\' = true := isVisible_of_isBasic (by decide)
  have hcode : ∀ letter width, isBasic letter = true →
      ('\\' :: letter :: hex width c.toNat).all isVisible = true := by
    intro letter width hl
    have hh := all_isVisible_of_isBasic (all_isBasic_hex width c.toNat)
    simp [hslash, isVisible_of_isBasic hl, hh]
  unfold escape
  split_ifs with hc _ _ _ hv
  · have hvisible : isVisible c = true := by
      simp only [Bool.or_eq_true, decide_eq_true_eq] at hc
      obtain rfl | rfl := hc
      · exact hm
      · exact hslash
    simp [hslash, hvisible]
  · exact all_isVisible_of_isBasic (by decide)
  · exact all_isVisible_of_isBasic (by decide)
  · exact all_isVisible_of_isBasic (by decide)
  · simp [hv]
  · exact hcode 'x' 2 (by decide)
  · exact hcode 'u' 4 (by decide)
  · exact hcode 'U' 8 (by decide)

theorem isOneLine_quoted (s : String) : isOneLine (quoted s) = true := by
  have hm : isVisible (markFor s.toList) = true := by
    apply isVisible_of_isBasic
    unfold markFor
    split <;> decide
  simp [isOneLine, quoted, hm, all_isVisible_escape]

end Text

open Text

namespace Number

namespace Decimal

theorem all_isBasic_of_digits {cs : List Char} (h : ∀ c ∈ cs, c.isDigit = true) :
    cs.all isBasic = true :=
  List.all_eq_true.2 fun c hc => isBasic_of_isDigit (h c hc)

theorem all_isBasic_plain (d : Decimal) : d.plain.all isBasic = true := by
  have hwhole := all_isBasic_of_digits (digits_toDigits (d.digits / Nat.pow 10 d.places))
  have hplaces : (padded d.places (d.digits % Nat.pow 10 d.places)).all isBasic = true :=
    all_isBasic_of_digits fun _ => isDigit_of_mem_padded
  have hpoint : isBasic '.' = true := by decide
  unfold plain
  split_ifs
  · exact hwhole
  · rw [List.all_append, List.all_cons, hwhole, hpoint, hplaces]
    rfl

theorem all_isBasic_mantissa {cs : List Char} (h : cs.all isBasic = true) :
    (mantissa cs).all isBasic = true := by
  unfold mantissa
  split
  · decide
  · exact h
  · have hpoint : isBasic '.' = true := by decide
    simpa [hpoint] using h

theorem all_isBasic_withExponent (d : Decimal) : d.withExponent.all isBasic = true := by
  have hexponent : (padded 2 d.exponent.natAbs).all isBasic = true :=
    all_isBasic_of_digits fun _ => isDigit_of_mem_padded
  have hmantissa := all_isBasic_mantissa (all_isBasic_of_digits (digits_dropTrailing d.digits))
  rw [withExponent_eq, List.all_append, hmantissa, List.all_cons, List.all_cons, hexponent]
  split_ifs <;> decide

theorem all_isBasic_general (d : Decimal) : d.general.all isBasic = true := by
  unfold general
  split_ifs
  · rw [List.all_append, all_isBasic_plain]
    decide
  · exact all_isBasic_plain d
  · exact all_isBasic_withExponent d

end Decimal

theorem isOneLine_inspect (x : Float) : isOneLine (inspect x) = true := by
  have hsize : ∀ bits, isOneLine (.ofList (Decimal.general (.shortest bits))) = true := by
    intro bits
    apply isOneLine_of_isBasic
    rw [String.toList_ofList, Decimal.all_isBasic_general]
  have hinf : isOneLine "inf" = true := isOneLine_of_isBasic (by decide)
  have hminus : isOneLine "-" = true := isOneLine_of_isBasic (by decide)
  simp only [inspect, write]
  split_ifs
  · exact isOneLine_of_isBasic (by decide)
  · exact isOneLine_append_of_isOneLine hminus hinf
  · exact isOneLine_append_of_isOneLine hminus (hsize _)
  · exact hinf
  · exact hsize _

end Number

theorem Value.isOneLine_inspect (v : Value) : isOneLine v.inspect = true := by
  cases v with
  | nil => exact isOneLine_of_isBasic (by decide)
  | bool b => cases b <;> exact isOneLine_of_isBasic (by decide)
  | num x => exact Number.isOneLine_inspect x
  | str s => exact isOneLine_quoted s

theorem Token.isOneLine_inspect (t : Token) : isOneLine t.inspect = true := by
  have hnames : (Kind.all.all fun k => k.name.toList.all isBasic) = true := by decide +kernel
  have hname : isOneLine t.kind.name = true :=
    isOneLine_of_isBasic (List.all_eq_true.1 hnames _ t.kind.mem_all)
  unfold inspect
  split
  · exact hname
  · have hopen : isOneLine "(" = true := isOneLine_of_isBasic (by decide)
    have hclose : isOneLine ")" = true := isOneLine_of_isBasic (by decide)
    rw [isOneLine_append, isOneLine_append, isOneLine_append, hname, hopen,
      Value.isOneLine_inspect, hclose]
    rfl

end Lox
