import PagedServing.Batch.Basic

/-! # Devices

A device executes batches. It answers with one sample for every sequence of the batch, in
batch order, or with the text of what went wrong. What a device remembers between batches
is a state of its own.
-/

namespace PagedServing

/-- What a step produced for one sequence. -/
structure Sample where
  token : Int
  /-- Whether the step succeeded for this sequence. -/
  success : Bool := true
  deriving Repr, DecidableEq

/-- How a device ended the execution of a batch. -/
structure Execution where
  result : Except String (List Sample)
  /-- What the device reported meanwhile. -/
  records : List Logging.Record := []

/-- A device with states `ω`. It is shown the batch and the sequences in it. -/
structure Device (ω : Type) where
  execute : Batch → List Sequence → ω → Execution × ω

end PagedServing
