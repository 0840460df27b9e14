import PagedServing.Cache.Swapping
import PagedServing.Total

/-! # Batches

A batch describes the work of one iteration: the tokens that every sequence still has to
process, one sequence after the other, with the place of each token in its sequence and
the slot of the cache that it writes to, and the blocks to be moved and copied before.
-/

namespace PagedServing

open Cache (Moves)

/-- The work of one iteration. -/
structure Batch where
  /-- The sequences, in the order of their priority. -/
  sequences : List SeqId := []
  /-- The unprocessed tokens of all sequences. -/
  tokens : List Int := []
  /-- The position of each token in its sequence. -/
  positions : List Int := []
  /-- The slot of the cache that each token writes to. -/
  slots : List Int := []
  /-- Where the tokens of each sequence end; the first starts at zero. -/
  bounds : List Int := [0]
  /-- The length of each sequence. -/
  contexts : List Nat := []
  tables : List (List Int) := []
  temperatures : List Float := []
  /-- Whether each sequence processes more than one token. -/
  prefills : List Bool := []
  blockSize : Nat := 16
  /-- Host blocks to copy to device blocks. -/
  swapIn : Moves := {}
  /-- Device blocks to copy to host blocks. -/
  swapOut : Moves := {}
  /-- Device blocks to copy to device blocks. -/
  copies : List (Int × Int) := []

namespace Batch

/-- The number of sequences. -/
def size (b : Batch) : Nat :=
  b.sequences.length

/-- Whether no sequence takes part. -/
def isEmpty (b : Batch) : Bool :=
  b.sequences.isEmpty

/-- The number of tokens. -/
def tokenCount (b : Batch) : Nat :=
  b.tokens.length

/-- The number of tokens of each sequence, by the bounds. -/
def spans (b : Batch) : List Int :=
  List.zipWith (fun start stop => stop - start) b.bounds b.bounds.tail

/-- The number of tokens of the sequences that process more than one. -/
def prefillTokens (b : Batch) : Int :=
  total (List.zipWith (fun span prefill => if prefill then span else 0) b.spans b.prefills)

/-- The number of the other tokens. -/
def decodeTokens (b : Batch) : Int :=
  b.tokenCount - b.prefillTokens

/-- Whether blocks have to be moved or copied before the work starts. -/
def hasBlockOps (b : Batch) : Bool :=
  !b.swapIn.isEmpty || !b.swapOut.isEmpty || !b.copies.isEmpty

/-- The slot for a position of a sequence. -/
def slot (blockSize : Nat) (table : List Int) (position : Int) : Except Fault Int :=
  match Offset.get? table (position / blockSize) with
  | some block => .ok (block * blockSize + position % blockSize)
  | none => .error .offsetOutOfRange

/-- The positions from `start` up to, and without, `stop`. -/
def span (start stop : Int) : List Int :=
  (List.range (stop - start).toNat).map fun (k : Nat) => start + k

/-- Add the unprocessed tokens of a sequence. -/
def add (b : Batch) (s : Sequence) : Except Fault Batch := do
  let positions := span s.computed s.length
  let slots ← positions.mapM (slot b.blockSize s.table)
  return { b with
    sequences := b.sequences ++ [s.id]
    tokens := b.tokens ++ Offset.suffix s.tokens s.computed
    positions := b.positions ++ positions
    slots := b.slots ++ slots
    bounds := b.bounds ++ [b.bounds.getLastD 0 + s.uncomputed]
    contexts := b.contexts ++ [s.length]
    tables := b.tables ++ [s.table]
    temperatures := b.temperatures ++ [s.sampling.temperature]
    prefills := b.prefills ++ [s.isPrefill] }

end Batch

end PagedServing
