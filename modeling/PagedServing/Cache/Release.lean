import PagedServing.Cache.Basic

/-! # Publishing and releasing blocks

Whole blocks whose keys and values have been computed are published, so that later
sequences with the same beginning find them. A sequence publishes what it has computed
before its blocks are freed.
-/

namespace PagedServing.Cache

/-- The number of blocks of a sequence that are full and computed. -/
def publishable (c : Cache) (id : SeqId) : Nat :=
  let s := c.sequence id
  (min (s.computed / c.blockSize) s.table.length).toNat

/-- Publish one block of a sequence after a chain of blocks, and return the longer
    chain's hash. A block that is already published under it is left alone. -/
def publishBlock (id : SeqId) (before : Int) (index : Nat) : Action Cache Int := do
  let s ← look id
  let tokens ← Action.ofExcept (s.block index)
  let hash ← Action.ofExcept (blockHash before tokens)
  let p := (← get).device
  let block ← Action.demand s.table[index]? .offsetOutOfRange
  let place ← Action.demand (Offset.resolve p.size block) .offsetOutOfRange
  let held ← Action.demand (p.block? block) .offsetOutOfRange
  if held.hash ≠ hash then onDevice (Pool.register place hash tokens)
  return hash

/-- Publish the full and computed device blocks of a sequence. -/
def publish (id : SeqId) : Action Cache Unit := do
  let c ← get
  if c.sharing && !c.isSwapped id then
    discard ((List.range (c.publishable id)).foldlM (publishBlock id) noHash)

/-- Free every block of a sequence, the last one first. -/
def release (id : SeqId) : Action Cache Unit := do
  let c ← get
  if c.isSwapped id then
    onHost (Pool.release (c.sequence id).table.reverse)
    modify fun c => { c with swapped := c.swapped.erase id }
  else
    publish id
    onDevice (Pool.release (← look id).table.reverse)
  edit id fun s => { s with cached := 0, table := [] }

end PagedServing.Cache
