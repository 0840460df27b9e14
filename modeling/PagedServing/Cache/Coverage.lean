import PagedServing.Cache.Basic

/-! # Covering tokens with blocks

A sequence is covered with blocks when it is admitted, and its table grows ahead of every
step. With sharing, whole blocks that the cache already holds are used again, up to the
first block that it does not hold. A block that several sequences refer to is copied
before one of them writes to it.
-/

namespace PagedServing.Cache

/-- Whether the free device blocks cover the tokens of a sequence. Blocks that could be
    shared are not counted. -/
def canAllocate (c : Cache) (id : SeqId) : Bool :=
  (c.sequence id).blockCount ≤ c.device.freeCount

/-- How far the cache has served the blocks of a sequence. -/
structure Chain where
  /-- The hash of the blocks so far. -/
  hash : Int := noHash
  /-- Whether some block was not found. -/
  missed : Bool := false
  /-- The number of tokens that were found. -/
  found : Nat := 0

/-- The device block that the cache serves for the next block of a chain. -/
def served? (c : Cache) (chain : Chain) (hash : Int) (tokens : List Int) : Option Int :=
  if chain.missed ∨ hash = noHash then none else c.device.lookup? hash tokens

/-- Cover one block of a sequence: with the block that the cache serves, or with a free
    one. -/
def coverBlock (id : SeqId) (chain : Chain) (index : Nat) : Action Cache Chain := do
  let s ← look id
  let tokens ← Action.ofExcept (s.block index)
  let c ← get
  let hash ← if tokens.length = c.blockSize then Action.ofExcept (blockHash chain.hash tokens)
    else pure noHash
  match c.served? chain hash tokens with
  | some block =>
    if block ∈ c.device.used then onDevice (Pool.shareOne block)
    else discard (onDevice (Pool.revive block))
    edit id fun s => { s with table := s.table ++ [block] }
    return { chain with hash, found := chain.found + c.blockSize }
  | none =>
    let block ← onDevice Pool.allocateOne
    edit id fun s => { s with table := s.table ++ [block] }
    return { chain with hash, missed := true }

/-- Cover the tokens of a sequence, sharing what can be shared. The last token is always
    computed again, so that the step has something to work on. -/
def allocateShared (id : SeqId) : Action Cache Unit := do
  let s ← look id
  let chain ← (List.range s.blockCount).foldlM (coverBlock id) {}
  edit id fun s => { s with cached := chain.found, computed := min chain.found (s.length - 1) }

/-- Cover the tokens of a sequence with free blocks. -/
def allocateFresh (id : SeqId) : Action Cache Unit := do
  let s ← look id
  let blocks ← onDevice (Pool.allocate s.blockCount)
  edit id fun s => { s with table := s.table ++ blocks, cached := 0, computed := 0 }

/-- Cover all tokens of a sequence that has no blocks yet. -/
def allocate (id : SeqId) : Action Cache Unit := do
  let c ← get
  let s := c.sequence id
  Action.require s.table.isEmpty (.tableNotEmpty s.requestId)
  Action.require (c.canAllocate id) (.outOfBlocks s.blockCount c.device.freeCount)
  if c.sharing then allocateShared id else allocateFresh id

/-- Whether the next write of a sequence would go to a block that others refer to. Only a
    block that is not full is written to. -/
def needsCopy (c : Cache) (id : SeqId) : Bool :=
  let s := c.sequence id
  match s.table.getLast? with
  | none => false
  | some last =>
    !c.isSwapped id && 1 < c.device.refs last &&
      (s.length : Int) - (s.table.length - 1) * c.blockSize < c.blockSize

/-- The number of free blocks it takes to cover `tokens` tokens of a sequence. -/
def growth (c : Cache) (id : SeqId) (tokens : Int) : Int :=
  max 0 (c.blocksFor tokens - (c.sequence id).table.length) + if c.needsCopy id then 1 else 0

/-- Whether the free device blocks let a sequence grow to `tokens` tokens. -/
def canAppend (c : Cache) (id : SeqId) (tokens : Int) : Bool :=
  c.growth id tokens ≤ c.device.freeCount

/-- Replace the last block of a sequence by a private copy. The answer names the block to
    copy from and the block to copy to. -/
def copyLast (id : SeqId) (source : Int) : Action Cache (Int × Int) := do
  let target ← onDevice Pool.allocateOne
  onDevice (Pool.release [source])
  edit id fun s => { s with table := s.table.dropLast ++ [target] }
  return (source, target)

/-- Let the table of a sequence cover `tokens` tokens. The answer is the copy that has to
    be made before the next write, if one has to be made. -/
def grow (id : SeqId) (tokens : Int) : Action Cache (Option (Int × Int)) := do
  let c ← get
  let s := c.sequence id
  Action.require (!c.isSwapped id) (.swappedOut s.requestId)
  Action.require (c.canAppend id tokens) (.outOfBlocks (c.growth id tokens) c.device.freeCount)
  let copy ←
    match s.table.getLast? with
    | some last => if c.needsCopy id then some <$> copyLast id last else pure none
    | none => pure none
  let missing := c.blocksFor tokens - s.table.length
  if 0 < missing then
    let blocks ← onDevice (Pool.allocate missing)
    edit id fun s => { s with table := s.table ++ blocks }
  return copy

/-- Let `child` refer to every block of `parent`. -/
def fork (parent child : SeqId) : Action Cache Unit := do
  let c ← get
  let p := c.sequence parent
  let q := c.sequence child
  Action.require (!c.isSwapped parent) (.forkingSwapped p.requestId)
  Action.require q.table.isEmpty (.tableNotEmpty q.requestId)
  onDevice (Pool.share p.table)
  edit child fun s => { s with table := p.table, computed := p.computed }

end PagedServing.Cache
