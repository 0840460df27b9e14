import PagedServing.Wire.Json

/-! # Reading JSON

The reader takes a value off the front of a text and gives the rest back. A number with a
fraction or an exponent is a floating-point number.
-/

namespace PagedServing.Wire

namespace Reader

/-- Whether a character may stand between two tokens. -/
def isGap (c : Char) : Bool :=
  c = ' ' || c = '\n' || c = '\t' || c = '\r'

/-- The text from its next token on. -/
def skipGap (cs : List Char) : List Char :=
  cs.dropWhile isGap

/-- The value of a hexadecimal digit. -/
def hexValue (c : Char) : Nat :=
  if c.isDigit then c.toNat - 48
  else if 'a' ≤ c ∧ c ≤ 'f' then c.toNat - 87
  else if 'A' ≤ c ∧ c ≤ 'F' then c.toNat - 55
  else 0

/-- The character that a letter behind a backslash stands for. -/
def escaped : Char → Char
  | 'n' => '\n'
  | 't' => '\t'
  | 'r' => '\r'
  | 'b' => Char.ofNat 8
  | 'f' => Char.ofNat 12
  | c => c

/-- The code points of a text up to its closing quote, behind those read, which stand in
    reverse. -/
def points (acc : List Nat) : List Char → Option (List Nat × List Char)
  | [] => none
  | '"' :: rest => some (acc.reverse, rest)
  | '\\' :: 'u' :: a :: b :: c :: d :: rest =>
    points ([a, b, c, d].foldl (fun n x => 16 * n + hexValue x) 0 :: acc) rest
  | '\\' :: c :: rest => points ((escaped c).toNat :: acc) rest
  | c :: rest => points (c.toNat :: acc) rest

/-- Whether a code point is the first half of a surrogate pair. -/
def isHigh (n : Nat) : Bool :=
  0xd800 ≤ n && n < 0xdc00

/-- Whether a code point is the second half of a surrogate pair. -/
def isLow (n : Nat) : Bool :=
  0xdc00 ≤ n && n < 0xe000

/-- Code points with the two halves of every surrogate pair joined. -/
def joinPairs : List Nat → List Nat
  | high :: low :: rest =>
    if isHigh high && isLow low then
      (0x10000 + (high - 0xd800) * 0x400 + (low - 0xdc00)) :: joinPairs rest
    else high :: joinPairs (low :: rest)
  | ps => ps

/-- The value for the code points of a text. -/
def textValue (ps : List Nat) : Json :=
  let ps := joinPairs ps
  if ps.any fun n => isHigh n || isLow n then .points ps
  else .text (String.ofList (ps.map Char.ofNat))

/-- A text that is used as a key. -/
def key (ps : List Nat) : String :=
  String.ofList ((joinPairs ps).map Char.ofNat)

/-- The number that decimal digits spell. -/
def natOf (digits : List Char) : Nat :=
  digits.foldl (fun n c => 10 * n + hexValue c) 0

/-- A sign, if there is one, and the rest. -/
def sign : List Char → Bool × List Char
  | '-' :: rest => (true, rest)
  | '+' :: rest => (false, rest)
  | cs => (false, cs)

/-- A whole number with a sign. -/
def signed (negative : Bool) (n : Nat) : Int :=
  if negative then -n else n

/-- The digits at the front, and the rest. -/
def digits (cs : List Char) : List Char × List Char :=
  (cs.takeWhile Char.isDigit, cs.dropWhile Char.isDigit)

/-- A fraction, if there is one, and the rest. -/
def fraction : List Char → Option (List Char) × List Char
  | '.' :: rest => (some (digits rest).1, (digits rest).2)
  | cs => (none, cs)

/-- An exponent, if there is one, and the rest. -/
def exponent : List Char → Option Int × List Char
  | c :: rest =>
    if c = 'e' ∨ c = 'E' then
      let (negative, rest) := sign rest
      (some (signed negative (natOf (digits rest).1)), (digits rest).2)
    else (none, c :: rest)
  | [] => (none, [])

/-- A number, and the rest. -/
def number (cs : List Char) : Json × List Char :=
  let (negative, cs) := sign cs
  let (whole, cs) := digits cs
  let (part, cs) := fraction cs
  let (power, cs) := exponent cs
  if part.isNone && power.isNone then (.int (signed negative (natOf whole)), cs)
  else
    let part := part.getD []
    let e := power.getD 0 - part.length
    let x := Float.ofScientific (natOf (whole ++ part)) (e < 0) e.natAbs
    (.real (if negative then -x else x), cs)

mutual

/-- A value of bounded depth, and the rest. -/
def value : Nat → List Char → Option (Json × List Char)
  | 0, _ => none
  | fuel + 1, cs =>
    match skipGap cs with
    | [] => none
    | '"' :: rest => (points [] rest).map fun (ps, rest) => (textValue ps, rest)
    | '[' :: rest =>
      match skipGap rest with
      | ']' :: rest => some (.list [], rest)
      | rest => items fuel [] rest
    | '\x7b' :: rest =>
      match skipGap rest with
      | '\x7d' :: rest => some (.map [], rest)
      | rest => fields fuel [] rest
    | 't' :: rest => some (.bool true, rest.drop 3)
    | 'f' :: rest => some (.bool false, rest.drop 4)
    | 'n' :: rest => some (.null, rest.drop 3)
    | cs => some (number cs)

/-- The items of a list behind those read, which stand in reverse. -/
def items : Nat → List Json → List Char → Option (Json × List Char)
  | 0, _, _ => none
  | fuel + 1, acc, cs => do
    let (x, rest) ← value fuel cs
    match skipGap rest with
    | ',' :: rest => items fuel (x :: acc) rest
    | ']' :: rest => some (.list (x :: acc).reverse, rest)
    | _ => none

/-- The fields of an object behind those read, which stand in reverse. -/
def fields : Nat → List (String × Json) → List Char → Option (Json × List Char)
  | 0, _, _ => none
  | fuel + 1, acc, cs =>
    match skipGap cs with
    | '"' :: rest => do
      let (name, rest) ← points [] rest
      match skipGap rest with
      | ':' :: rest =>
        let (x, rest) ← value fuel rest
        match skipGap rest with
        | ',' :: rest => fields fuel ((key name, x) :: acc) rest
        | '\x7d' :: rest => some (.map ((key name, x) :: acc).reverse, rest)
        | _ => none
      | _ => none
    | _ => none

end

end Reader

/-- The value that a text spells. Every level of nesting takes a character, and so does
    every item, which bounds the depth of the reader. -/
def Json.read? (s : String) : Option Json :=
  let cs := s.toList
  (Reader.value (2 * cs.length + 2) cs).map (·.1)

end PagedServing.Wire
