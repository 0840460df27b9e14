/-! # The shortest decimal that reads back

A binary floating-point number is the nearest one to every real in an interval around it.
The shortest decimal for it is a decimal in that interval with the fewest digits, and of
those the nearest to the number itself. Everything is decided in exact arithmetic.
-/

namespace PagedServing.Decimal

/-- A positive finite number `mantissa * 2 ^ exponent` of 64-bit floating point. -/
structure Magnitude where
  mantissa : Nat
  exponent : Int
  deriving Repr, DecidableEq

/-- The magnitude that the lower 63 bits of a finite number spell. -/
def Magnitude.ofBits (bits : Nat) : Magnitude :=
  let field : Nat := bits / Nat.pow 2 52 % Nat.pow 2 11
  let fraction : Nat := bits % Nat.pow 2 52
  if field = 0 then ⟨fraction, -1074⟩ else ⟨fraction + Nat.pow 2 52, (field : Int) - 1075⟩

/-- A quotient of two natural numbers. -/
structure Quotient where
  num : Nat
  den : Nat
  deriving Repr, DecidableEq

/-- The quotient `n * 2 ^ e`. -/
def Quotient.ofBinary (n : Nat) (e : Int) : Quotient :=
  if 0 ≤ e then ⟨n * Nat.pow 2 e.toNat, 1⟩ else ⟨n, Nat.pow 2 (-e).toNat⟩

/-- The order of `c * 10 ^ k` and a quotient. -/
def compareGrid (c : Nat) (k : Int) (x : Quotient) : Ordering :=
  if 0 ≤ k then compare (c * Nat.pow 10 k.toNat * x.den) x.num
  else compare (c * x.den) (x.num * Nat.pow 10 (-k).toNat)

/-- The greatest `c` with `c * 10 ^ k` not above a quotient. -/
def floorGrid (k : Int) (x : Quotient) : Nat :=
  if 0 ≤ k then x.num / (x.den * Nat.pow 10 k.toNat)
  else x.num * Nat.pow 10 (-k).toNat / x.den

/-- The number of decimal digits of a natural number. -/
def digitCount (n : Nat) : Nat :=
  (Nat.toDigits 10 n).length

/-- The exponent of the leading decimal digit of a positive quotient. -/
def leadingExponent (x : Quotient) : Int :=
  if x.den ≤ x.num then digitCount (x.num / x.den) - 1
  else -(digitCount ((x.den + x.num - 1) / x.num - 1) : Int)

/-- The reals that round to one floating-point number. -/
structure Interval where
  low : Quotient
  high : Quotient
  closed : Bool

/-- The interval of a positive magnitude reaches half way to its neighbours. The lower
    neighbour of a power of two is half as far away. -/
def Magnitude.interval (x : Magnitude) : Interval :=
  let below := if x.mantissa = Nat.pow 2 52 ∧ -1074 < x.exponent then 1 else 2
  { low := .ofBinary (4 * x.mantissa - below) (x.exponent - 2)
    high := .ofBinary (4 * x.mantissa + 2) (x.exponent - 2)
    closed := x.mantissa % 2 = 0 }

/-- Whether `c * 10 ^ k` lies in an interval. -/
def Interval.holds (i : Interval) (c : Nat) (k : Int) : Bool :=
  match compareGrid c k i.low, compareGrid c k i.high with
  | .gt, .lt => true
  | .eq, .lt => i.closed
  | .gt, .eq => i.closed
  | _, _ => false

/-- A decimal `coefficient * 10 ^ exponent`. -/
structure Scientific where
  coefficient : Nat
  exponent : Int
  deriving Repr, DecidableEq

/-- The point of the grid `10 ^ k` that stands for a magnitude, if one of its two
    neighbours on the grid rounds back to it. -/
def Magnitude.onGrid? (x : Magnitude) (k : Int) : Option Scientific :=
  let value := Quotient.ofBinary x.mantissa x.exponent
  let c := floorGrid k value
  let i := x.interval
  match i.holds c k, i.holds (c + 1) k with
  | true, true =>
    match compareGrid (2 * c + 1) k ⟨2 * value.num, value.den⟩ with
    | .gt => some ⟨c, k⟩
    | .lt => some ⟨c + 1, k⟩
    | .eq => some ⟨c + c % 2, k⟩
  | true, false => some ⟨c, k⟩
  | false, true => some ⟨c + 1, k⟩
  | false, false => none

/-- The same decimal without trailing zeros in its coefficient. -/
def Scientific.trim (d : Scientific) : Scientific :=
  if h : d.coefficient = 0 ∨ d.coefficient % 10 ≠ 0 then d
  else
    have : d.coefficient / 10 < d.coefficient := by omega
    trim ⟨d.coefficient / 10, d.exponent + 1⟩
termination_by d.coefficient

/-- The shortest decimal that rounds to a magnitude; seventeen digits always suffice. -/
def Magnitude.shortest (x : Magnitude) : Scientific :=
  if x.mantissa = 0 then ⟨0, 0⟩
  else
    let lead := leadingExponent (.ofBinary x.mantissa x.exponent)
    match (List.range 17).findSome? fun (n : Nat) => x.onGrid? (lead - n) with
    | some d => d.trim
    | none => ⟨x.mantissa, 0⟩

end PagedServing.Decimal
