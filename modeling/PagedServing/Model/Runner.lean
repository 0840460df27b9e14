import PagedServing.Batch.Tensors
import PagedServing.Device
import PagedServing.Model.Sampler

/-! # Running a model

A model maps the tensors of a batch to logits: one row for every sequence, or one row for
every token, of which the rows of the last tokens count. Blocks are moved before the model
runs. A row that is not finite fails its own sequence only.
-/

namespace PagedServing

open Logging (Record Severity)

/-- Why a model gave no samples. -/
inductive ModelFailure where
  /-- Moving blocks or the model itself failed. -/
  | execution (text : String)
  /-- The logits are no matrix. -/
  | notMatrix (shape : List Nat)
  /-- There are rows for neither sequences nor tokens. -/
  | rowCount (sequences rows : Nat)
  /-- The row of a last token is not there. -/
  | rowMissing (index : Int) (rows : Nat)
  /-- The sampler refused the rows. -/
  | sampling (refusal : Sampler.Refusal)
  deriving Repr, DecidableEq

/-- The lengths of dimensions, in parentheses. -/
def shapeText : List Nat → String
  | [n] => s!"({n},)"
  | shape => "(" ++ ", ".intercalate (shape.map toString) ++ ")"

/-- The text of a failure. -/
def ModelFailure.message : ModelFailure → String
  | execution text => s!"Model execution failed: {text}"
  | notMatrix shape => s!"Expected 2D logits, got shape {shapeText shape}"
  | rowCount sequences rows => s!"Expected logits for {sequences} sequences, got {rows}"
  | rowMissing index rows => s!"index {index} is out of bounds for dimension 0 with size {rows}"
  | sampling refusal => refusal.message

/-- A model and, if there is one, the means to move blocks before it runs. -/
structure Runner where
  model : Batch → Tensors → Except String Logits
  moveBlocks : Option (Batch → Except String Unit) := none
  sampler : Logits → Temperatures → Except Sampler.Refusal (List Nat) := Sampler.sample

/-- What a runner called. -/
inductive RunnerCall where
  | moveBlocks
  | model
  deriving Repr, DecidableEq

/-- A run of a model: what was called, in order, and how the run ended. -/
structure ModelRun where
  calls : List RunnerCall
  result : Except ModelFailure (List Sample)

namespace Runner

/-- The text for a number that does not fit its tensor. -/
def misfitText : ElementType → String
  | .int64 => "Overflow when unpacking long long"
  | .int32 => "value cannot be converted to type int32 without overflow"
  | .float32 => "value cannot be converted to type float without overflow"

/-- The rows that count, one for every sequence. -/
def chooseRows (b : Batch) (logits : Logits) : Except ModelFailure (List (List Float32)) :=
  if logits.rowCount = b.tokenCount ∧ b.tokenCount ≠ b.size then
    b.lastIndices.mapM fun i =>
      match Offset.get? logits.rows i with
      | some row => .ok row
      | none => .error (.rowMissing i logits.rowCount)
  else if logits.rowCount ≠ b.size then
    .error (.rowCount b.size logits.rowCount)
  else
    .ok logits.rows

/-- The samples of the rows that count. The rows that are not finite are replaced, so that
    the others can be sampled. -/
def samples (r : Runner) (b : Batch) (logits : Logits) : Except ModelFailure (List Sample) := do
  if !logits.isMatrix then throw (.notMatrix logits.shape)
  let rows ← chooseRows b logits
  let finite := rows.map fun row => row.all (·.isFinite)
  let safe := List.zipWith (fun row ok => if ok then row else row.map fun _ => 0) rows finite
  match r.sampler (.ofRows safe) (.ofList b.singleTemperatures) with
  | .ok tokens => return List.zipWith (fun token ok => ⟨Int.ofNat token, ok⟩) tokens finite
  | .error refusal => throw (.sampling refusal)

/-- The calls for a batch, and what the model gave for it. An empty batch needs no
    model. -/
def forward (r : Runner) (b : Batch) : List RunnerCall × Except String (Option Logits) :=
  let moving := if b.hasBlockOps then r.moveBlocks else none
  let moved := match moving with
    | some move => move b
    | none => .ok ()
  let before := if moving.isSome then [RunnerCall.moveBlocks] else []
  match moved with
  | .error text => (before, .error text)
  | .ok () =>
    if b.isEmpty then (before, .ok none)
    else
      match b.misfit? with
      | some type => (before, .error (misfitText type))
      | none => (before ++ [.model], some <$> r.model b b.tensors)

/-- Run the model on a batch. -/
def run (r : Runner) (b : Batch) : ModelRun :=
  let (calls, outcome) := r.forward b
  match outcome with
  | .error text => ⟨calls, .error (.execution text)⟩
  | .ok none => ⟨calls, .ok []⟩
  | .ok (some logits) => ⟨calls, r.samples b logits⟩

/-- The component that reports about runs. -/
def source : String := "scalellm.engine.executor"

end Runner

/-- What is reported about a run: a failed execution, but no failure after it. -/
def ModelRun.records (run : ModelRun) : List Record :=
  match run.result with
  | .error (.execution text) =>
    [⟨.error, Runner.source, s!"Batch execution failed: {text}"⟩]
  | _ => []

/-- A run as the execution of a batch. -/
def ModelRun.execution (run : ModelRun) : Execution where
  result := match run.result with
    | .ok samples => .ok samples
    | .error failure => .error failure.message
  records := run.records

end PagedServing
