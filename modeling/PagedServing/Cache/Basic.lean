import PagedServing.Logging.Journal
import PagedServing.Pool
import PagedServing.Sequence.Store

/-! # The cache of keys and values

The cache keeps the blocks of all sequences: which blocks of the device pool hold which
tokens, which sequences were moved to the host pool, and what was reported on the way.
-/

namespace PagedServing

open Logging (Journal Record Severity)

/-- The block tables of all sequences on top of the pools. -/
structure Cache where
  /-- Tokens in one block. -/
  blockSize : Nat
  device : Pool
  /-- Where sequences are swapped to, if anywhere. -/
  host : Option Pool
  /-- Whether sequences with equal beginnings share blocks. -/
  sharing : Bool
  /-- The sequences whose tables name host blocks. -/
  swapped : List SeqId := []
  sequences : Store := {}
  journal : Journal := {}
  blockSize_pos : 0 < blockSize

namespace Cache

/-- An empty cache of a size that is yet to be checked. -/
def create (deviceBlocks blockSize hostBlocks : Int) (sharing : Bool) : Except Fault Cache := do
  let device ← Pool.create deviceBlocks blockSize
  let host ← if 0 < hostBlocks then some <$> Pool.create hostBlocks blockSize else pure none
  if size : 0 < blockSize then
    return { blockSize := blockSize.toNat, device, host, sharing, blockSize_pos := by omega }
  else
    throw (.blockSizeNotPositive blockSize)

/-- The sequence of a number. -/
def sequence (c : Cache) (id : SeqId) : Sequence :=
  c.sequences.get id

/-- Whether the blocks of a sequence are on the host. -/
def isSwapped (c : Cache) (id : SeqId) : Bool :=
  id ∈ c.swapped

/-- The number of free blocks of the host pool. -/
def hostFreeCount (c : Cache) : Nat :=
  match c.host with
  | some p => p.freeCount
  | none => 0

/-- The number of blocks that `tokens` tokens take. -/
def blocksFor (c : Cache) (tokens : Int) : Int :=
  (tokens + c.blockSize - 1) / c.blockSize

/-- Look at a sequence. -/
def look (id : SeqId) : Action Cache Sequence :=
  return (← get).sequence id

/-- Change a sequence. -/
def edit (id : SeqId) (f : Sequence → Sequence) : Action Cache Unit :=
  modify fun c => { c with sequences := c.sequences.update id f }

/-- Construct a sequence. -/
def create? (d : Draft) : Action Cache SeqId := do
  let c ← get
  let (store, s) ← Action.ofExcept (c.sequences.create d)
  set { c with sequences := store }
  return s.id

/-- Add a generated token to a sequence. -/
def append (id : SeqId) (token : Int) : Action Cache Unit := do
  let s ← Action.ofExcept ((← look id).append token)
  edit id fun _ => s

/-- Report something. -/
def report (severity : Severity) (source message : String) : Action Cache Unit :=
  modify fun c => { c with journal := c.journal.write ⟨severity, source, message⟩ }

/-- Act on the device pool. -/
def onDevice {α : Type} (act : Action Pool α) : Action Cache α :=
  Action.within (·.device) (fun c p => { c with device := p }) act

/-- Act on the host pool. -/
def onHost {α : Type} (act : Action Pool α) : Action Cache α := fun c =>
  match c.host with
  | none => .error .noHostPool c
  | some p => Action.within (fun _ => p) (fun c p => { c with host := some p }) act c

end Cache

end PagedServing
