import PagedServing.Cache.Basic

/-! # Swapping

The blocks of a sequence move between the device pool and the host pool. A block that
others refer to gets a private copy on the other side.
-/

namespace PagedServing.Cache

/-- Which blocks are to be copied where, between two pools. -/
abbrev Moves := OrderedMap Int Int

/-- Whether the host pool has room for the blocks of a sequence. -/
def canSwapOut (c : Cache) (id : SeqId) : Bool :=
  match c.host with
  | some p => (c.sequence id).table.length ≤ p.freeCount
  | none => false

/-- Move the blocks of a sequence to the host pool. -/
def swapOut (id : SeqId) : Action Cache Moves := do
  let c ← get
  let s := c.sequence id
  Action.require c.host.isSome .noHostPool
  Action.require (!c.isSwapped id) (.alreadySwapped s.requestId)
  let blocks ← onHost (Pool.allocate s.table.length)
  onDevice (Pool.release s.table)
  edit id fun s => { s with table := blocks }
  modify fun c => { c with swapped := c.swapped.insert id }
  return .ofList (s.table.zip blocks)

/-- Whether the free device blocks let a swapped-out sequence come back and grow to
    `tokens` tokens. -/
def canSwapIn (c : Cache) (id : SeqId) (tokens : Int) : Bool :=
  max ((c.sequence id).table.length : Int) (c.blocksFor tokens) ≤ c.device.freeCount

/-- Move the blocks of a swapped-out sequence back to the device pool. -/
def swapIn (id : SeqId) : Action Cache Moves := do
  let c ← get
  let s := c.sequence id
  Action.require (c.isSwapped id) (.notSwapped s.requestId)
  let blocks ← onDevice (Pool.allocate s.table.length)
  onHost (Pool.release s.table)
  edit id fun s => { s with table := blocks }
  modify fun c => { c with swapped := c.swapped.erase id }
  return .ofList (s.table.zip blocks)

end PagedServing.Cache
