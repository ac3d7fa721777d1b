import Lox.Proofs.Number.Plain

namespace Lox.Number

def natural? (cs : List Char) : Option Nat :=
  if !cs.isEmpty && cs.all Char.isDigit then some (Decimal.valueOf cs) else none

def fraction? (cs : List Char) : Option ℚ :=
  match cs.splitOn '.' with
  | [whole] => (natural? whole).map fun n => n
  | [whole, places] => do
    let n ← natural? whole
    let m ← natural? places
    some (n + m / 10 ^ places.length)
  | _ => none

def power? : List Char → Option ℚ
  | '+' :: cs => (natural? cs).map fun n => 10 ^ n
  | '-' :: cs => (natural? cs).map fun n => 1 / 10 ^ n
  | _ => none

/-- The fraction as which a number without a sign is read, with an exponent behind an `e` if there
is one. -/
def unsigned? (cs : List Char) : Option ℚ :=
  match cs.splitOn 'e' with
  | [fraction] => fraction? fraction
  | [fraction, exponent] => do
    let q ← fraction? fraction
    let p ← power? exponent
    some (q * p)
  | _ => none

def worth? : List Char → Option ℚ
  | '-' :: cs => (unsigned? cs).map fun q => -q
  | cs => unsigned? cs

variable {cs ds : List Char}

theorem notMem_of_digits {c : Char} (hc : c.isDigit = false) (h : ∀ d ∈ cs, d.isDigit = true) :
    c ∉ cs := by
  intro hm
  rw [h c hm] at hc
  cases hc

theorem natural?_of_digits (hne : cs ≠ []) (h : ∀ c ∈ cs, c.isDigit = true) :
    natural? cs = some (Decimal.valueOf cs) := by
  have hall : cs.all Char.isDigit = true := List.all_eq_true.2 h
  simp [natural?, hne, hall]

theorem fraction?_of_digits (hne : cs ≠ []) (h : ∀ c ∈ cs, c.isDigit = true) :
    fraction? cs = some (Decimal.valueOf cs : ℚ) := by
  have hpoint := notMem_of_digits (c := '.') rfl h
  simp [fraction?, List.splitOn_eq_singleton hpoint, natural?_of_digits hne h]

theorem fraction?_of_pointed (hne : cs ≠ []) (h : ∀ c ∈ cs, c.isDigit = true) (hne' : ds ≠ [])
    (h' : ∀ d ∈ ds, d.isDigit = true) :
    fraction? (cs ++ '.' :: ds) = some ((Decimal.valueOf (cs ++ ds) : ℚ) / 10 ^ ds.length) := by
  have hpoint := notMem_of_digits (c := '.') rfl h
  have hpoint' := notMem_of_digits (c := '.') rfl h'
  have hsplit : (cs ++ '.' :: ds).splitOn '.' = [cs, ds] := by
    rw [List.splitOn_append_cons_self_of_not_mem hpoint, List.splitOn_eq_singleton hpoint']
  have hpos : (10 : ℚ) ^ ds.length ≠ 0 := by positivity
  have hvalue : ((Decimal.valueOf cs : ℚ) + Decimal.valueOf ds / 10 ^ ds.length) =
      (Decimal.valueOf (cs ++ ds) : ℚ) / 10 ^ ds.length := by
    rw [Decimal.valueOf_append]
    push_cast
    field_simp
  rw [fraction?, hsplit]
  simp [natural?_of_digits hne h, natural?_of_digits hne' h', hvalue]

theorem unsigned?_of_fraction (h : 'e' ∉ cs) : unsigned? cs = fraction? cs := by
  rw [unsigned?, List.splitOn_eq_singleton h]

theorem unsigned?_of_power {q p : ℚ} (h : 'e' ∉ cs) (h' : 'e' ∉ ds) (hq : fraction? cs = some q)
    (hp : power? ds = some p) : unsigned? (cs ++ 'e' :: ds) = some (q * p) := by
  rw [unsigned?, List.splitOn_append_cons_self_of_not_mem h, List.splitOn_eq_singleton h']
  simp [hq, hp]

theorem fraction?_of_minus (cs : List Char) : fraction? ('-' :: cs) = none := by
  have hminus : ∀ ds, natural? ('-' :: ds) = none := fun ds => by simp [natural?]
  rw [fraction?, List.splitOn_cons_eq_if_modifyHead, if_neg (by decide)]
  rcases cs.splitOn '.' with _ | ⟨whole, _ | ⟨places, _ | _⟩⟩
  · rfl
  · simp [hminus]
  · simp [hminus]
  · rfl

theorem unsigned?_of_minus (cs : List Char) : unsigned? ('-' :: cs) = none := by
  rw [unsigned?, List.splitOn_cons_eq_if_modifyHead, if_neg (by decide)]
  rcases cs.splitOn 'e' with _ | ⟨fraction, _ | ⟨exponent, _ | _⟩⟩
  · rfl
  · exact fraction?_of_minus fraction
  · simp [fraction?_of_minus]
  · rfl

theorem head?_of_unsigned? {q : ℚ} (h : unsigned? cs = some q) : cs.head? ≠ some '-' := by
  cases cs with
  | nil => simp
  | cons c cs =>
    intro hc
    obtain rfl := Option.some.inj hc
    rw [unsigned?_of_minus] at h
    cases h

theorem worth?_signed {q : ℚ} (negative : Bool) (h : unsigned? cs = some q) :
    worth? ((if negative then ['-'] else []) ++ cs) = some (if negative then -q else q) := by
  cases negative with
  | true => exact congrArg (Option.map fun q => -q) h
  | false =>
    simp only [Bool.false_eq_true, if_false, List.nil_append]
    rw [worth?, h]
    rintro ds rfl
    exact head?_of_unsigned? h rfl

theorem head?_signed {q : ℚ} (negative : Bool) (h : unsigned? cs = some q) :
    ((if negative then ['-'] else []) ++ cs).head? = some '-' ↔ negative = true := by
  cases negative with
  | true => simp
  | false => simpa using head?_of_unsigned? h

theorem power?_of_exponent (k : Int) (hne : ds ≠ []) (h : ∀ d ∈ ds, d.isDigit = true)
    (hv : Decimal.valueOf ds = k.natAbs) :
    power? ((if k < 0 then '-' else '+') :: ds) = some ((10 : ℚ) ^ k) := by
  by_cases hk : k < 0
  · obtain ⟨n, rfl⟩ := Int.exists_eq_neg_ofNat (Int.le_of_lt hk)
    rw [if_pos hk, power?, natural?_of_digits hne h, hv]
    simp
  · obtain ⟨n, rfl⟩ := Int.eq_ofNat_of_zero_le (Int.not_lt.1 hk)
    rw [if_neg hk, power?, natural?_of_digits hne h, hv]
    simp

namespace Decimal

def worth (d : Decimal) : ℚ := d.digits / 10 ^ d.places

theorem digits_toDigits (n : Nat) : ∀ c ∈ Nat.toDigits 10 n, c.isDigit = true :=
  fun _ => isDigit_of_mem_toDigits

theorem unsigned?_plain (d : Decimal) : unsigned? d.plain = some d.worth := by
  have hwhole := digits_toDigits (d.digits / 10 ^ d.places)
  have hplaces : ∀ c ∈ padded d.places (d.digits % 10 ^ d.places), c.isDigit = true :=
    fun _ => isDigit_of_mem_padded
  have he := notMem_of_digits (c := 'e') rfl hwhole
  by_cases hp : d.places = 0
  · rw [plain, if_pos hp, Nat.pow_eq, unsigned?_of_fraction he,
      fraction?_of_digits Nat.toDigits_ne_nil hwhole, valueOf_toDigits, worth, hp, pow_zero, pow_zero,
      Nat.div_one, div_one]
  · have hvalue :
        valueOf (Nat.toDigits 10 (d.digits / 10 ^ d.places) ++
          padded d.places (d.digits % 10 ^ d.places)) = d.digits :=
      congrArg digits (ofChars_padded hp)
    have hlength : (padded d.places (d.digits % 10 ^ d.places)).length = d.places :=
      congrArg places (ofChars_padded hp)
    have he' := notMem_of_digits (c := 'e') rfl hplaces
    have hfraction := fraction?_of_pointed Nat.toDigits_ne_nil hwhole (padded_ne_nil _ _) hplaces
    rw [hvalue, hlength] at hfraction
    rw [plain, if_neg hp]
    exact (unsigned?_of_fraction (by simp [he, he'])).trans hfraction

theorem unsigned?_plain_zero {d : Decimal} (h : d.places = 0) :
    unsigned? (d.plain ++ ['.', '0']) = some d.worth := by
  have hdigits := digits_toDigits d.digits
  have he := notMem_of_digits (c := 'e') rfl hdigits
  have hplain : d.plain = Nat.toDigits 10 d.digits := by
    rw [plain, if_pos h, h, Nat.pow_eq, Nat.pow_zero, Nat.div_one]
  have hvalue : valueOf (Nat.toDigits 10 d.digits ++ ['0']) = 10 * d.digits := by
    rw [valueOf_append, valueOf_toDigits]
    rfl
  have hzero : ∀ c ∈ ['0'], c.isDigit = true := List.forall_mem_singleton.2 rfl
  have hfraction := fraction?_of_pointed Nat.toDigits_ne_nil hdigits (List.cons_ne_nil _ _) hzero
  rw [hplain, unsigned?_of_fraction (by simp [he]), hfraction, hvalue, worth, h]
  simp

theorem exists_dropTrailing (cs : List Char) : ∃ k, cs = dropTrailing cs ++ List.replicate k '0' := by
  have hzeros : ∀ c ∈ cs.reverse.takeWhile (· == '0'), c = '0' := by
    intro c hc
    simpa using List.mem_takeWhile_imp hc
  refine ⟨(cs.reverse.takeWhile (· == '0')).length, ?_⟩
  have hsplit :=
    congrArg List.reverse (List.takeWhile_append_dropWhile (p := (· == '0')) (l := cs.reverse))
  rw [List.reverse_append, List.reverse_reverse] at hsplit
  rw [dropTrailing, ← List.reverse_replicate, ← List.eq_replicate_of_mem hzeros, hsplit]

theorem digits_dropTrailing (n : Nat) : ∀ c ∈ dropTrailing (Nat.toDigits 10 n), c.isDigit = true := by
  intro c hc
  obtain ⟨k, hk⟩ := exists_dropTrailing (Nat.toDigits 10 n)
  exact digits_toDigits n c (hk ▸ List.mem_append_left _ hc)

def mantissa : List Char → List Char
  | [] => ['0']
  | [c] => [c]
  | c :: cs => c :: '.' :: cs

theorem withExponent_eq (d : Decimal) :
    d.withExponent = mantissa (dropTrailing (Nat.toDigits 10 d.digits)) ++
      'e' :: (if d.exponent < 0 then '-' else '+') :: padded 2 d.exponent.natAbs := rfl

theorem e_notMem_mantissa {cs : List Char} (h : ∀ c ∈ cs, c.isDigit = true) : 'e' ∉ mantissa cs := by
  have he := notMem_of_digits (c := 'e') rfl h
  unfold mantissa
  split
  · decide
  · exact he
  · simpa using he

theorem fraction?_mantissa {c : Char} {cs : List Char} (h : ∀ d ∈ c :: cs, d.isDigit = true) :
    fraction? (mantissa (c :: cs)) = some ((valueOf (c :: cs) : ℚ) / 10 ^ cs.length) := by
  cases cs with
  | nil =>
    rw [mantissa, fraction?_of_digits (List.cons_ne_nil _ _) h, List.length_nil, pow_zero, div_one]
  | cons d ds =>
    obtain ⟨hc, hds⟩ := List.forall_mem_cons.1 h
    have hfirst : ∀ b ∈ [c], b.isDigit = true := List.forall_mem_singleton.2 hc
    exact fraction?_of_pointed (List.cons_ne_nil c []) hfirst (List.cons_ne_nil d ds) hds

theorem exists_digits_eq (n : Nat) : ∃ k, n = 10 ^ k * valueOf (dropTrailing (Nat.toDigits 10 n)) ∧
    (Nat.toDigits 10 n).length = (dropTrailing (Nat.toDigits 10 n)).length + k := by
  obtain ⟨k, hk⟩ := exists_dropTrailing (Nat.toDigits 10 n)
  have hzeros : valueOf (List.replicate k '0') = 0 := Nat.ofDigitChars_replicate_zero
  have hvalue := congrArg valueOf hk
  have hlength := congrArg List.length hk
  rw [valueOf_toDigits, valueOf_append, hzeros, List.length_replicate, Nat.add_zero] at hvalue
  rw [List.length_append, List.length_replicate] at hlength
  exact ⟨k, hvalue, hlength⟩

/-- With the point behind the first of `n + 1` digits, the exponent makes up for `n` places and for
the zeros. -/
theorem mul_power_exponent {d : Decimal} {n k m : Nat} (hd : d.digits = 10 ^ k * m)
    (hl : (Nat.toDigits 10 d.digits).length = n + 1 + k) :
    (m : ℚ) / 10 ^ n * 10 ^ d.exponent = d.worth := by
  have hexponent : d.exponent = (n : Int) + k - d.places := by
    rw [exponent, hl]
    push_cast
    ring
  rw [worth, hd, hexponent, zpow_sub₀ (by decide), zpow_add₀ (by decide), zpow_natCast, zpow_natCast,
    zpow_natCast]
  push_cast
  field_simp

theorem unsigned?_withExponent (d : Decimal) : unsigned? d.withExponent = some d.worth := by
  obtain ⟨k, hvalue, hlength⟩ := exists_digits_eq d.digits
  have hdigits := digits_dropTrailing d.digits
  have hpadded : ∀ c ∈ padded 2 d.exponent.natAbs, c.isDigit = true := fun _ => isDigit_of_mem_padded
  have he : 'e' ∉ (if d.exponent < 0 then '-' else '+') :: padded 2 d.exponent.natAbs := by
    have he := notMem_of_digits (c := 'e') rfl hpadded
    split <;> simp [he]
  have hpower := power?_of_exponent d.exponent (padded_ne_nil 2 _) hpadded (valueOf_padded _ _)
  rw [withExponent_eq]
  generalize dropTrailing (Nat.toDigits 10 d.digits) = cs at *
  -- of all numbers only zero is left with no digits
  cases cs with
  | nil =>
    have hzero : d.worth = 0 := by simp [worth, hvalue, valueOf]
    have hfraction : fraction? ['0'] = some 0 := fraction?_of_digits (List.cons_ne_nil _ _) (by simp)
    rw [unsigned?_of_power (e_notMem_mantissa hdigits) he hfraction hpower, hzero, zero_mul]
  | cons c cs =>
    rw [unsigned?_of_power (e_notMem_mantissa hdigits) he (fraction?_mantissa hdigits) hpower,
      mul_power_exponent hvalue hlength]

theorem unsigned?_general (d : Decimal) : unsigned? d.general = some d.worth := by
  rw [general]
  split_ifs with _ hp
  · exact unsigned?_plain_zero hp
  · exact unsigned?_plain d
  · exact unsigned?_withExponent d

end Decimal

end Lox.Number
