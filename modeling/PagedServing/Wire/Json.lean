import PagedServing.Decimal.Number

/-! # JSON values

The form in which requests and answers travel. Whole numbers and floating-point numbers are
kept apart, for they mean different things to a setting.
-/

namespace PagedServing.Wire

/-- A JSON value. -/
inductive Json where
  | null
  | bool (b : Bool)
  | int (n : Int)
  | real (x : Float)
  | text (s : String)
  /-- A text given by its code points, of which some may be halves of surrogate pairs. -/
  | points (ps : List Nat)
  | list (xs : List Json)
  | map (fields : List (String × Json))

namespace Json

instance : Inhabited Json := ⟨.null⟩

/-- The value of a field, also if it is null. Of equal fields the last one counts. -/
def field? (j : Json) (key : String) : Option Json :=
  match j with
  | .map fields => (fields.reverse.find? (·.1 = key)).map (·.2)
  | _ => none

/-- The value of a field that is there and not null. -/
def get? (j : Json) (key : String) : Option Json :=
  match j.field? key with
  | some .null => none
  | other => other

/-- The whole number that a value stands for. -/
def asInt : Json → Int
  | .int n => n
  | .bool b => if b then 1 else 0
  | .text s => s.toInt?.getD 0
  | _ => 0

/-- The truth value that a value stands for. -/
def asBool : Json → Bool
  | .bool b => b
  | .int n => n ≠ 0
  | _ => false

/-- The text that a value stands for. -/
def asText : Json → String
  | .text s => s
  | _ => ""

/-- The items of a list. -/
def asList : Json → List Json
  | .list xs => xs
  | _ => []

/-- The floating-point number that a value stands for. Those that are not finite are given
    by name. -/
def asFloat : Json → Float
  | .int n => Float.ofInt n
  | .real x => x
  | .text "nan" => 0.0 / 0.0
  | .text "inf" => 1.0 / 0.0
  | .text "-inf" => -(1.0 / 0.0)
  | _ => 0.0

/-- The number that a value stands for, as it was given. -/
def asNumber : Json → Number
  | .int n => .whole n
  | j => .real j.asFloat

/-- The whole numbers of a list. -/
def asInts (j : Json) : List Int :=
  j.asList.map asInt

/-- The whole number of a field, if it is there. -/
def whole? (j : Json) (key : String) : Option Int :=
  (j.get? key).map asInt

/-- The whole number of a field. -/
def whole (j : Json) (key : String) (fallback : Int := 0) : Int :=
  (j.whole? key).getD fallback

/-- The natural number of a field. -/
def nat (j : Json) (key : String) : Nat :=
  (j.whole key).toNat

/-- The truth value of a field. -/
def flag (j : Json) (key : String) (fallback : Bool := false) : Bool :=
  ((j.get? key).map asBool).getD fallback

/-- The text of a field, if it is there. -/
def str? (j : Json) (key : String) : Option String :=
  (j.get? key).map asText

/-- The text of a field. -/
def str (j : Json) (key : String) (fallback : String := "") : String :=
  (j.str? key).getD fallback

/-- The items of a field. -/
def items (j : Json) (key : String) : List Json :=
  ((j.get? key).map asList).getD []

/-- The whole numbers of a field. -/
def ints (j : Json) (key : String) : List Int :=
  (j.items key).map asInt

/-- The fields of a field. -/
def fields (j : Json) (key : String) : List (String × Json) :=
  match j.get? key with
  | some (.map fs) => fs
  | _ => []

end Json

end PagedServing.Wire
