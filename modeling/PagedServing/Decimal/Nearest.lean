/-! # The floating-point number nearest to a quotient

A quotient of whole numbers is rounded once, to the nearest 64-bit floating-point number;
a tie goes to the even neighbour.
-/

namespace PagedServing.Decimal

/-- The exponent of the last place of the floating-point numbers next to `num / den`. -/
def placeExponent (num den : Nat) : Int :=
  let guess : Int := (Nat.log2 num : Int) - Nat.log2 den
  let reached :=
    if 0 ≤ guess then den * Nat.pow 2 guess.toNat ≤ num
    else den ≤ num * Nat.pow 2 (-guess).toNat
  max ((if reached then guess else guess - 1) - 52) (-1074)

/-- `num / den` in units of `2 ^ e`, rounded to the nearest whole number, ties to even. -/
def roundAt (num den : Nat) (e : Int) : Nat :=
  let n := if 0 ≤ e then num else num * Nat.pow 2 (-e).toNat
  let d := if 0 ≤ e then den * Nat.pow 2 e.toNat else den
  let q := n / d
  match compare (2 * (n % d)) d with
  | .lt => q
  | .gt => q + 1
  | .eq => q + q % 2

/-- The bits of the number `m * 2 ^ e` whose mantissa has at most 53 bits, or 54 if it is
    `2 ^ 53`. The leading bit of a normal mantissa adds one to the exponent field. -/
def bitsOf (m : Nat) (e : Int) : Nat :=
  (e + 1074).toNat * Nat.pow 2 52 + m

/-- The number nearest to `num / den`, if it is finite. Zero takes the sign of `den`. -/
def nearest? (num den : Int) : Option Float :=
  let sign := if (num < 0) = (den < 0) then 0 else Nat.pow 2 63
  let bits :=
    if num = 0 then 0
    else
      let e := placeExponent num.natAbs den.natAbs
      bitsOf (roundAt num.natAbs den.natAbs e) e
  if bits < 2047 * Nat.pow 2 52 then some (Float.ofBits (UInt64.ofNat (sign + bits))) else none

end PagedServing.Decimal
