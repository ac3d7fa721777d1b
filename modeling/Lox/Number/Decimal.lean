import Lox.Number.Binary

namespace Lox.Number

/-- The fraction `digits / 10 ^ places`. -/
structure Decimal where
  digits : Nat
  places : Nat

namespace Decimal

def magnitude (d : Decimal) : Nat := nearest d.digits (Nat.pow 10 d.places)

/-- A finite magnitude has finitely many decimal places, since two divides ten. -/
def exact (bits : Nat) : Decimal where
  digits := significand bits * Nat.pow 2 (scale bits - 1074) * Nat.pow 5 (1074 - scale bits)
  places := 1074 - scale bits

def dropZeros : Nat → Nat → Decimal
  | n, 0 => ⟨n, 0⟩
  | n, p + 1 => if n % 10 = 0 then dropZeros (n / 10) p else ⟨n, p + 1⟩

def trim (d : Decimal) : Decimal := dropZeros d.digits d.places

/-- Of the two neighbours of `d` among the multiples of `grid` units, the nearer one that is read as
`bits`; between equally near ones the even multiple. -/
def onGrid (bits : Nat) (d : Decimal) (grid : Nat) : Option Decimal :=
  let q := d.digits / grid
  let below : Decimal := ⟨q * grid, d.places⟩
  let above : Decimal := ⟨(q + 1) * grid, d.places⟩
  match below.magnitude == bits, above.magnitude == bits with
  | true, true => some (if roundDiv d.digits grid = q then below else above)
  | true, false => some below
  | false, true => some above
  | false, false => none

/-- The decimal of fewest significant digits that is read as `bits`, and of those the nearest.
Seventeen digits are enough for every magnitude; the exact decimal would serve as well. -/
def shortest (bits : Nat) : Decimal :=
  let d := exact bits
  let size := (Nat.toDigits 10 d.digits).length
  let found := (List.range' 1 17).findSome? fun n => onGrid bits d (Nat.pow 10 (size - n))
  (found.getD d).trim

def valueOf (digits : List Char) : Nat :=
  digits.foldl (fun n c => 10 * n + (c.toNat - 48)) 0

def ofChars (whole fraction : List Char) : Decimal :=
  ⟨valueOf (whole ++ fraction), fraction.length⟩

def padded (width n : Nat) : List Char :=
  let ds := Nat.toDigits 10 n
  List.replicate (width - ds.length) '0' ++ ds

def plain (d : Decimal) : List Char :=
  let whole := Nat.toDigits 10 (d.digits / Nat.pow 10 d.places)
  if d.places = 0 then whole else whole ++ '.' :: padded d.places (d.digits % Nat.pow 10 d.places)

def exponent (d : Decimal) : Int := (Nat.toDigits 10 d.digits).length - 1 - d.places

def dropTrailing (cs : List Char) : List Char := (cs.reverse.dropWhile (· == '0')).reverse

def withExponent (d : Decimal) : List Char :=
  let mantissa := match dropTrailing (Nat.toDigits 10 d.digits) with
    | [] => ['0']
    | [c] => [c]
    | c :: cs => c :: '.' :: cs
  let sign := if d.exponent < 0 then '-' else '+'
  mantissa ++ 'e' :: sign :: padded 2 d.exponent.natAbs

/-- Plain with at least one place from `0.0001` up to below `10 ^ 16`, else with an exponent. -/
def general (d : Decimal) : List Char :=
  if -4 ≤ d.exponent ∧ d.exponent < 16 then
    if d.places = 0 then d.plain ++ ['.', '0'] else d.plain
  else d.withExponent

end Decimal

def ofMagnitude (bits : Nat) : Float := Float.ofBits (UInt64.ofNat bits)

def isNegative (x : Float) : Bool := Nat.pow 2 63 ≤ x.toBits.toNat

def magnitudeOf (x : Float) : Nat := x.toBits.toNat % Nat.pow 2 63

def write (layout : Decimal → List Char) (notANumber : String) (x : Float) : String :=
  let bits := magnitudeOf x
  if infinity < bits then notANumber
  else
    let size := if bits = infinity then "inf" else String.ofList (layout (.shortest bits))
    if isNegative x then "-" ++ size else size

/-- As `print` shows it: never an exponent, and no point in a whole number. -/
def text : Float → String := write Decimal.plain "NaN"

def inspect : Float → String := write Decimal.general "nan"

end Lox.Number
