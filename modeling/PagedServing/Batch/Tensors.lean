import PagedServing.Batch.Basic

/-! # Tensors of a batch

What a model is given of a batch: rectangular arrays of fixed-width numbers. Block tables
are padded to the longest one.
-/

namespace PagedServing

/-- The fixed-width numbers of a tensor. -/
inductive ElementType where
  | int32
  | int64
  | float32
  deriving Repr, DecidableEq

namespace ElementType

/-- The name of an element type. -/
def name : ElementType → String
  | int32 => "torch.int32"
  | int64 => "torch.int64"
  | float32 => "torch.float32"

/-- The number of bits of a whole number. -/
def width : ElementType → Nat
  | int32 | float32 => 32
  | int64 => 64

/-- The least number beyond those that fit. -/
def bound (t : ElementType) : Nat :=
  Nat.pow 2 (t.width - 1)

/-- Whether a whole number fits. -/
def fits (t : ElementType) (n : Int) : Bool :=
  -(t.bound : Int) ≤ n && n < t.bound

end ElementType

/-- The elements of a tensor of one or two dimensions. -/
inductive Elements where
  | whole (values : List Int)
  | rows (values : List (List Int))
  | real (values : List Float32)

/-- A tensor. -/
structure Tensor where
  type : ElementType
  shape : List Nat
  elements : Elements

namespace Tensor

/-- The tensor of a list of whole numbers. -/
def whole (type : ElementType) (values : List Int) : Tensor :=
  ⟨type, [values.length], .whole values⟩

/-- The tensor of rows of equal length. -/
def rows (type : ElementType) (width : Nat) (values : List (List Int)) : Tensor :=
  ⟨type, [values.length, width], .rows values⟩

/-- The tensor of a list of single-precision numbers. -/
def real (values : List Float32) : Tensor :=
  ⟨.float32, [values.length], .real values⟩

end Tensor

/-- All that a model is given of a batch. -/
structure Tensors where
  inputIds : Tensor
  positions : Tensor
  slotMapping : Tensor
  bounds : Tensor
  contexts : Tensor
  blockTables : Tensor
  temperatures : Tensor
  lastIndices : Tensor

namespace Batch

/-- The length of the longest block table. -/
def tableWidth (b : Batch) : Nat :=
  (b.tables.map (·.length)).foldl max 0

/-- A block table, padded to `width` with -1. -/
def padded (width : Nat) (table : List Int) : List Int :=
  table ++ List.replicate (width - table.length) (-1)

/-- The index of the last token of each sequence. -/
def lastIndices (b : Batch) : List Int :=
  b.bounds.tail.map (· - 1)

/-- The temperatures in single precision. -/
def singleTemperatures (b : Batch) : List Float32 :=
  b.temperatures.map (·.toFloat32)

/-- The tensors of a batch whose numbers all fit. -/
def tensors (b : Batch) : Tensors where
  inputIds := .whole .int64 b.tokens
  positions := .whole .int64 b.positions
  slotMapping := .whole .int32 b.slots
  bounds := .whole .int32 b.bounds
  contexts := .whole .int32 (b.contexts.map Int.ofNat)
  blockTables := .rows .int32 b.tableWidth (b.tables.map (padded b.tableWidth))
  temperatures := .real b.singleTemperatures
  lastIndices := .whole .int64 b.lastIndices

/-- The element type of the first number of a batch that does not fit its tensor. A number
    that does not even fit the wider type is reported as such. -/
def misfit? (b : Batch) : Option ElementType :=
  let wide := (b.tokens ++ b.positions).map fun n => (ElementType.int64, n)
  let narrow := (b.slots ++ b.bounds ++ b.contexts.map Int.ofNat ++ b.tables.flatten).map
    fun n => (ElementType.int32, n)
  (wide ++ narrow).findSome? fun (type, n) =>
    if !ElementType.int64.fits n then some .int64
    else if !type.fits n then some type
    else none

end Batch

end PagedServing
