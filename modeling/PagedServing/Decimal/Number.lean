import PagedServing.Decimal.Shortest

/-! # Numbers as a caller gives them

A setting may be given as a whole number or as a floating-point number, and a message
about it shows it as it was given.
-/

namespace PagedServing

namespace Decimal

/-- When a decimal is written out in full, and how its exponent is written if it is not. -/
structure Layout where
  /-- The least exponent of the leading digit that is written out. -/
  fullFrom : Int
  /-- The least exponent above those written out. -/
  fullBelow : Int
  /-- The least number of digits of a written exponent. -/
  exponentWidth : Nat

/-- Numbers from one ten-thousandth up to, and without, 10^16 are written out. -/
def Layout.standard : Layout := ⟨-4, 16, 2⟩

/-- The text of an exponent, always with a sign. -/
def Layout.exponentText (l : Layout) (e : Int) : String :=
  let digits := Nat.repr e.natAbs
  let zeros := String.ofList (List.replicate (l.exponentWidth - digits.length) '0')
  (if e < 0 then "e-" else "e+") ++ zeros ++ digits

/-- The text of a decimal. A number written out always shows a fraction. -/
def Layout.text (l : Layout) (d : Scientific) : String :=
  let digits := Nat.toDigits 10 d.coefficient
  let lead := d.exponent + digits.length - 1
  if d.coefficient = 0 then "0.0"
  else if l.fullFrom ≤ lead ∧ lead < l.fullBelow then
    if 0 ≤ d.exponent then
      String.ofList (digits ++ List.replicate d.exponent.toNat '0') ++ ".0"
    else if 0 ≤ lead then
      let whole := lead.toNat + 1
      String.ofList (digits.take whole ++ '.' :: digits.drop whole)
    else
      String.ofList ('0' :: '.' :: List.replicate (-lead - 1).toNat '0' ++ digits)
  else
    match digits with
    | [] => ""
    | [c] => String.ofList [c] ++ l.exponentText lead
    | c :: rest => String.ofList (c :: '.' :: rest) ++ l.exponentText lead

end Decimal

/-- A number as it was given. -/
inductive Number where
  /-- A whole number. -/
  | whole (n : Int)
  /-- A floating-point number. -/
  | real (x : Float)

namespace Number

/-- The floating-point number nearest to a number. -/
def toFloat : Number → Float
  | .whole n => Float.ofInt n
  | .real x => x

/-- The text of a floating-point number: the shortest decimal that reads back. -/
def realText (x : Float) : String :=
  let bits := x.toBits.toNat
  let mark := if bits < Nat.pow 2 63 then "" else "-"
  if x.isNaN then "nan"
  else if x.isInf then mark ++ "inf"
  else
    let magnitude := Decimal.Magnitude.ofBits (bits % Nat.pow 2 63)
    mark ++ Decimal.Layout.standard.text magnitude.shortest

/-- The text of a number. -/
def text : Number → String
  | .whole n => toString n
  | .real x => realText x

/-- The exact value of a finite number. -/
def exact : Number → Rat
  | .whole n => n
  | .real x =>
    let bits := x.toBits.toNat
    let m := Decimal.Magnitude.ofBits (bits % Nat.pow 2 63)
    let q := Decimal.Quotient.ofBinary m.mantissa m.exponent
    if bits < Nat.pow 2 63 then mkRat q.num q.den else -mkRat q.num q.den

/-- Whether a number is at most `bound`, which lies strictly between 0 and 1. A whole
    number is compared exactly. -/
def atMost (bound : Float) : Number → Bool
  | .whole n => n ≤ 0
  | .real x => x ≤ bound

end Number

end PagedServing
