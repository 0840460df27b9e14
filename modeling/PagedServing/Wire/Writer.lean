import PagedServing.Text.Quoted
import PagedServing.Wire.Json

/-! # Writing JSON -/

namespace PagedServing.Wire

/-- One code point inside a text. -/
def writePoint (n : Nat) : String :=
  if n = 0x22 then "\\\""
  else if n = 0x5c then "\\\\"
  else if n < 0x20 ∨ (0xd800 ≤ n ∧ n < 0xe000) then
    "\\u" ++ String.ofList (Text.hexDigits 4 n)
  else String.singleton (Char.ofNat n)

/-- A text given by its code points. -/
def writePoints (ps : List Nat) : String :=
  ps.foldl (fun acc p => acc ++ writePoint p) "\"" ++ "\""

/-- A text. -/
def writeText (s : String) : String :=
  writePoints (s.toList.map (·.toNat))

namespace Json

mutual

/-- Write a value behind what has been written. -/
def writeAfter (acc : String) : Json → String
  | .null => acc ++ "null"
  | .bool b => acc ++ if b then "true" else "false"
  | .int n => acc ++ toString n
  | .real x => acc ++ Number.realText x
  | .text s => acc ++ writeText s
  | .points ps => acc ++ writePoints ps
  | .list xs => writeItems (acc ++ "[") "" xs ++ "]"
  | .map fields => writeFields (acc ++ "\x7b") "" fields ++ "\x7d"

/-- Write items, a separator before the first one. -/
def writeItems (acc separator : String) : List Json → String
  | [] => acc
  | x :: rest => writeItems (writeAfter (acc ++ separator) x) "," rest

/-- Write fields, a separator before the first one. -/
def writeFields (acc separator : String) : List (String × Json) → String
  | [] => acc
  | (key, x) :: rest =>
    writeFields (writeAfter (acc ++ separator ++ writeText key ++ ":") x) "," rest

end

/-- Write a value. -/
def write (j : Json) : String :=
  writeAfter "" j

end Json

end PagedServing.Wire
