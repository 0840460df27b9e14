import PagedServing.BlockHash
import PagedServing.Offset
import PagedServing.OrderedMap

/-! # Pools of blocks

A pool hands out blocks of fixed size and counts the references to each. A block without
references is on the free list, and freed blocks go to its end. A block may be registered
under the hash of what it holds; the registration outlives the last reference, until the
block is handed out for something else.

Blocks are named by offsets into the pool: a negative one counts from the last block.
-/

namespace PagedServing

/-- One block of a pool. -/
structure Block where
  /-- The number of block tables that refer to the block. -/
  refs : Nat := 0
  /-- The hash that stands for the tokens up to the end of the block. -/
  hash : Int := noHash
  /-- The tokens that the hash was computed from, kept to tell collisions. -/
  tokens : List Int := []
  deriving Repr, DecidableEq, Inhabited

/-- A pool of blocks. -/
structure Pool where
  /-- Tokens in one block. -/
  blockSize : Nat
  blocks : List Block
  /-- The block that was registered last for each hash. -/
  registry : OrderedMap Int Int := {}
  /-- The blocks without references, in the order in which they will be handed out. -/
  free : List Int
  /-- The blocks with references. -/
  used : List Int := []
  deriving Repr, DecidableEq

namespace Pool

/-- A pool whose blocks are all free. -/
def ofSize (count blockSize : Nat) : Pool where
  blockSize := blockSize
  blocks := List.replicate count {}
  free := (List.range count).map Int.ofNat

/-- A pool of a size that is yet to be checked. -/
def create (count blockSize : Int) : Except Fault Pool :=
  if count ≤ 0 then .error (.poolSizeNotPositive count)
  else if blockSize ≤ 0 then .error (.blockSizeNotPositive blockSize)
  else .ok (ofSize count.toNat blockSize.toNat)

/-- The number of blocks. -/
def size (p : Pool) : Nat :=
  p.blocks.length

/-- The number of free blocks. -/
def freeCount (p : Pool) : Nat :=
  p.free.length

/-- The number of blocks in use. -/
def usedCount (p : Pool) : Nat :=
  p.used.length

/-- The block of an offset. -/
def block? (p : Pool) (id : Int) : Option Block :=
  Offset.get? p.blocks id

/-- The number of references to a block. -/
def refs (p : Pool) (id : Int) : Nat :=
  match p.block? id with
  | some b => b.refs
  | none => 0

/-- Change the block of an offset. -/
def updateBlock (p : Pool) (id : Int) (f : Block → Block) : Pool :=
  match Offset.resolve p.blocks.length id with
  | some i => { p with blocks := p.blocks.modify i f }
  | none => p

/-- Forget what a block was registered for, if it is still found there. -/
def unregister (p : Pool) (id : Int) : Pool :=
  match p.block? id with
  | some b =>
    if b.hash ≠ noHash ∧ p.registry.get? b.hash = some id then
      { p with registry := p.registry.erase b.hash }
    else p
  | none => p

/-- Hand out a block for new content. -/
def claim (p : Pool) (id : Int) : Pool :=
  let p := (p.unregister id).updateBlock id fun _ => { refs := 1 }
  { p with used := p.used.insert id }

/-- Hand out `count` blocks, the oldest free ones, or none at all. -/
def allocate (count : Int) : Action Pool (List Int) := do
  let p ← get
  if count < 0 then throw (.negativeCount count)
  if p.freeCount < count then throw (.outOfBlocks count p.freeCount)
  let ids := p.free.take count.toNat
  set (ids.foldl claim { p with free := p.free.drop count.toNat })
  return ids

/-- Hand out the oldest free block. -/
def allocateOne : Action Pool Int := do
  let p ← get
  match p.free with
  | [] => throw (.outOfBlocks 1 0)
  | id :: rest =>
    set ({ p with free := rest }.claim id)
    return id

/-- Take a free block that still holds something useful off the free list. It keeps its
    hash and its tokens. The answer is its place in the pool. -/
def revive (id : Int) : Action Pool Nat := do
  let p ← get
  let place ← Action.demand (Offset.resolve p.size id) .offsetOutOfRange
  if p.refs id ≠ 0 then throw (.alreadyAllocated id)
  if id ∉ p.free then throw .missingItem
  let p := { p with free := p.free.erase id, used := p.used.insert id }
  set (p.updateBlock id ({ · with refs := 1 }))
  return place

/-- Add a reference to a block in use. -/
def shareOne (id : Int) : Action Pool Unit := do
  let p ← get
  let b ← Action.demand (p.block? id) .offsetOutOfRange
  if b.refs = 0 then throw (.sharingUnallocated id)
  set (p.updateBlock id fun b => { b with refs := b.refs + 1 })

/-- Add a reference to each block, one after the other. -/
def share (ids : List Int) : Action Pool Unit :=
  ids.forM shareOne

/-- Drop a reference to a block in use. The last one puts it at the end of the free
    list. -/
def releaseOne (id : Int) : Action Pool Unit := do
  let p ← get
  let b ← Action.demand (p.block? id) .offsetOutOfRange
  if b.refs = 0 ∨ id ∉ p.used then throw (.freeingUnallocated id)
  let p := p.updateBlock id fun b => { b with refs := b.refs - 1 }
  set (if b.refs = 1 then { p with used := p.used.erase id, free := p.free ++ [id] } else p)

/-- Drop a reference to each block, one after the other. -/
def release (ids : List Int) : Action Pool Unit :=
  ids.forM releaseOne

/-- Note that a block holds `tokens`, and that it is the one to find under `hash`. -/
def register (id hash : Int) (tokens : List Int) : Action Pool Unit := do
  let p ← get
  let _ ← Action.demand (p.block? id) .offsetOutOfRange
  let p := p.updateBlock id ({ · with hash, tokens })
  set { p with registry := p.registry.insert hash id }

/-- The block registered for `hash`, if it holds `tokens`. -/
def lookup? (p : Pool) (hash : Int) (tokens : List Int) : Option Int := do
  let id ← p.registry.get? hash
  let b ← p.block? id
  if id ≠ -1 ∧ b.tokens = tokens then some id else none

end Pool

end PagedServing
