namespace Lox.Number

/-- The pattern of infinity, which is also the number of finite magnitudes. -/
def infinity : Nat := 0x7FF0000000000000

def roundDiv (num den : Nat) : Nat :=
  let q := num / den
  let r := num % den
  if 2 * r < den then q else if den < 2 * r then q + 1 else q + q % 2

/-- The magnitude nearest to a quotient; a half goes to the even neighbour, and what is too large
goes to infinity. Magnitudes are multiples of `2 ^ -1074`, below `2 ^ -1021` all of them, and
further up those of 53 significant bits. Rounding up to the next power of two carries into the
pattern of that power. -/
def nearest (num den : Nat) : Nat :=
  let units := num * Nat.pow 2 1074
  let k := (units / den).log2 - 52
  min (k * Nat.pow 2 52 + roundDiv units (den * Nat.pow 2 k)) infinity

/-- A finite magnitude is `significand * 2 ^ scale` units of `2 ^ -1074`. -/
def scale (bits : Nat) : Nat := bits / Nat.pow 2 52 - 1

def significand (bits : Nat) : Nat := bits - scale bits * Nat.pow 2 52

end Lox.Number
