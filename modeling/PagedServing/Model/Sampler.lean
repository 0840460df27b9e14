/-! # The sampler

Every sequence has a row of logits, one for each token of the vocabulary, and a
temperature. The sampler picks the token whose logit, scaled by the temperature, is the
greatest. A row without a greatest scaled logit gives its first token.
-/

namespace PagedServing

/-- A tensor of logits. Its rows are those of a matrix; a tensor of any other number of
    dimensions has none. -/
structure Logits where
  shape : List Nat
  rows : List (List Float32)

namespace Logits

/-- The logits of a matrix. -/
def ofRows (rows : List (List Float32)) : Logits :=
  ⟨[rows.length, (rows.map (·.length)).headD 0], rows⟩

/-- Logits that are all zero. -/
def zeros (shape : List Nat) : Logits :=
  match shape with
  | [n, width] => ⟨shape, List.replicate n (List.replicate width 0)⟩
  | _ => ⟨shape, []⟩

/-- Whether the logits form a matrix. -/
def isMatrix (l : Logits) : Bool :=
  l.shape.length = 2

/-- The length of the first dimension. -/
def rowCount (l : Logits) : Nat :=
  l.shape.headD 0

end Logits

/-- A tensor of temperatures. -/
structure Temperatures where
  shape : List Nat
  values : List Float32

/-- The temperatures of a list. -/
def Temperatures.ofList (values : List Float32) : Temperatures :=
  ⟨[values.length], values⟩

namespace Sampler

/-- Why the sampler refuses its input. -/
inductive Refusal where
  | logitsNotMatrix
  | temperaturesNotVector
  | countsDiffer
  | emptyVocabulary
  deriving Repr, DecidableEq

/-- The text of a refusal. -/
def Refusal.message : Refusal → String
  | logitsNotMatrix => "logits must be a 2D tensor of shape (batch, vocab)"
  | temperaturesNotVector => "temperatures must be a 1D tensor of shape (batch,)"
  | countsDiffer => "batch size of logits and temperatures must match"
  | emptyVocabulary => "argmax(): Expected reduction dim 1 to have non-zero size."

/-- The least temperature that logits are divided by. -/
def leastTemperature : Float32 :=
  (1e-8 : Float).toFloat32

/-- A row of logits, scaled by a temperature. -/
def scale (row : List Float32) (temperature : Float32) : List Float32 :=
  let t := if temperature < leastTemperature then leastTemperature else temperature
  row.map (· / t)

/-- The place and the value of the first of the greatest numbers after a first number. -/
def greatestFrom (place : Nat) (best : Nat × Float32) : List Float32 → Nat × Float32
  | [] => best
  | x :: rest => greatestFrom (place + 1) (if best.2 < x then (place, x) else best) rest

/-- The place of the greatest number of a row. A row that holds something other than a
    number, or whose greatest number is infinite, has no greatest: its first place is
    given. -/
def greatest? : List Float32 → Option Nat
  | [] => none
  | x :: rest =>
    let (place, best) := greatestFrom 1 (0, x) rest
    if (x :: rest).any (·.isNaN) || best.isInf then some 0 else some place

/-- The token of one row. -/
def pick? (row : List Float32) (temperature : Float32) : Option Nat :=
  greatest? (scale row temperature)

/-- The tokens of all rows. -/
def sample (logits : Logits) (temperatures : Temperatures) : Except Refusal (List Nat) :=
  if !logits.isMatrix then .error .logitsNotMatrix
  else if temperatures.shape.length ≠ 1 then .error .temperaturesNotVector
  else if logits.rowCount ≠ temperatures.shape.headD 0 then .error .countsDiffer
  else
    match (List.zipWith pick? logits.rows temperatures.values).mapM id with
    | some tokens => .ok tokens
    | none => .error .emptyVocabulary

end Sampler

end PagedServing
