import PagedServing.Sequence.Status
import PagedServing.Text.Quoted

/-! # Faults

What can go wrong while requests are served, each fault with its cause. An action that
meets a fault stops there and keeps the state that it had reached.
-/

namespace PagedServing

/-- What a callback of the caller failed with. -/
structure CallbackError where
  text : String
  /-- Whether it is an error like those that an engine itself reports. -/
  ofEngine : Bool := false
  deriving Repr, DecidableEq

/-- A cause for which an operation stops. -/
inductive Fault where
  /-- A request without any token. -/
  | emptyPrompt
  /-- Blocks that could hold no token. -/
  | blockSizeNotPositive (size : Int)
  /-- A token that no vocabulary has. -/
  | negativeToken (token : Int)
  /-- A running sequence whose blocks are full. -/
  | noSlot (request : String) (blocks position : Nat)
  /-- A block of tokens beyond the end of a sequence. -/
  | blockOutOfRange (index : Int) (count : Nat)
  /-- An offset beyond either end of a list. -/
  | offsetOutOfRange
  /-- A walk along a list that never moves. -/
  | zeroStride
  /-- An item that a queue was expected to hold. -/
  | missingItem
  /-- A number that does not fit the word it is digested in. -/
  | wordOverflow
  /-- A pool without blocks. -/
  | poolSizeNotPositive (size : Int)
  /-- A request for fewer than no blocks. -/
  | negativeCount (count : Int)
  /-- More blocks asked for than are free. -/
  | outOfBlocks (requested : Int) (available : Nat)
  /-- A block in use cannot be taken from the free list. -/
  | alreadyAllocated (block : Int)
  /-- A free block cannot be shared. -/
  | sharingUnallocated (block : Int)
  /-- A free block cannot be freed. -/
  | freeingUnallocated (block : Int)
  /-- A sequence that was to have no blocks has some. -/
  | tableNotEmpty (request : String)
  /-- The blocks of a sequence are on the host. -/
  | swappedOut (request : String)
  /-- The blocks of a sequence to be copied are on the host. -/
  | forkingSwapped (request : String)
  /-- There is no pool to swap to. -/
  | noHostPool
  /-- A sequence was swapped out twice. -/
  | alreadySwapped (request : String)
  /-- A sequence was swapped in without having been swapped out. -/
  | notSwapped (request : String)
  /-- The name of a request is taken. -/
  | inFlight (request : String)
  /-- A prompt leaves no room for a generated token. -/
  | promptTooLong (request : String) (tokens blocks limit poolSize blockSize : Nat)
  /-- A sequence that ended is still registered. -/
  | notLive (request : String) (status : Status)
  /-- A sequence stopped running while its batch was executed. -/
  | leftRunning (request : String)
  /-- A sequence stands twice in the queues. -/
  | queuedTwice (request : String)
  /-- A sequence stands in the wrong queue. -/
  | misplaced (request : String) (status queue : Status)
  /-- A sequence has more tokens than its blocks have slots. -/
  | overCapacity (request : String) (tokens slots : Nat)
  /-- Registered and queued sequences differ in number. -/
  | registryMismatch (live queued : Nat)
  /-- Free blocks and block tables disagree. -/
  | freeMismatch (free : Nat) (expected : Int)
  /-- There is nothing to execute batches on. -/
  | noDevice
  /-- A word that names no finish reason. -/
  | unknownReason (word : String)
  /-- The engine takes no requests any more. -/
  | shuttingDown
  /-- The engine has been shut down. -/
  | closed
  /-- The background loop ended by a fault. -/
  | loopFailed
  /-- The background loop already drives the engine. -/
  | loopRunning
  /-- Blocks were in use after everything was released. -/
  | blocksLeaked (count : Int)
  /-- As many sampling settings as prompts were expected. -/
  | settingsMismatch (settings prompts : Nat)
  /-- A token that stands for no character. -/
  | notCodePoint
  /-- A callback of the caller failed. -/
  | callbackFailed (error : CallbackError)
  /-- The work that is left can never be done. -/
  | stalled
  deriving Repr, DecidableEq

/-- The text of a fault. -/
def Fault.message : Fault → String
  | emptyPrompt => "token_ids must contain at least one token"
  | blockSizeNotPositive n => s!"block_size must be positive, got {n}"
  | negativeToken t => s!"Token ID must be non-negative, got {t}"
  | noSlot r blocks position =>
    s!"Sequence {r} has {blocks} blocks, cannot append token {position}"
  | blockOutOfRange i n => s!"Block index {i} out of range [0, {n})"
  | offsetOutOfRange => "offset out of range"
  | zeroStride => "stride of zero"
  | missingItem => "item not found"
  | wordOverflow => "number too wide"
  | poolSizeNotPositive n => s!"num_blocks must be positive, got {n}"
  | negativeCount n => s!"n must be non-negative, got {n}"
  | outOfBlocks requested available =>
    s!"Not enough free blocks: need {requested}, have {available}"
  | alreadyAllocated b => s!"Block {b} already allocated"
  | sharingUnallocated b => s!"Cannot share unallocated block {b}"
  | freeingUnallocated b => s!"Cannot free block {b}: it is not allocated"
  | tableNotEmpty r => s!"Sequence {r} already has allocated blocks"
  | swappedOut r => s!"Sequence {r} is swapped out"
  | forkingSwapped r => s!"Cannot fork swapped sequence {r}"
  | noHostPool => "Swapping requires a host block pool"
  | alreadySwapped r => s!"Sequence {r} is already swapped out"
  | notSwapped r => s!"Sequence {r} is not swapped out"
  | inFlight r => s!"Request {Text.quoted r} is already in flight"
  | promptTooLong r tokens blocks limit poolSize blockSize =>
    s!"Prompt of request {Text.quoted r} has {tokens} tokens and needs {blocks} " ++
      s!"blocks; the maximum sequence length is {limit} tokens ({poolSize} blocks of " ++
      s!"{blockSize} tokens)"
  | notLive r status => s!"Sequence {r} is {status.name} but still registered as live"
  | leftRunning r => s!"Sequence {r} left RUNNING while its batch was executing"
  | queuedTwice r => s!"Sequence {r} is queued twice"
  | misplaced r status queue => s!"Sequence {r} is {status.name} but queued as {queue.name}"
  | overCapacity r tokens slots => s!"Sequence {r} holds {tokens} tokens in {slots} slots"
  | registryMismatch live queued => s!"{live} live requests but {queued} queued sequences"
  | freeMismatch free expected => s!"{free} free blocks, expected {expected}"
  | noDevice => "Scheduler.step() requires an executor"
  | unknownReason w => s!"{Text.quoted w} is not a valid FinishReason"
  | shuttingDown => "Engine is shutting down, no new requests are accepted"
  | closed => "Engine has been shut down"
  | loopFailed => "Scheduling loop failed"
  | loopRunning => "generate() drives the engine itself; call it without start()"
  | blocksLeaked n => s!"{n} blocks still allocated after shutdown"
  | settingsMismatch settings prompts =>
    s!"Got {settings} sampling params for {prompts} prompts"
  | notCodePoint => "chr() arg not in range(0x110000)"
  | callbackFailed error => error.text
  | stalled => "the work that is left can never be done"

/-- An action on a state: a value or a fault, and in either case the state reached. -/
abbrev Action (σ α : Type) := EStateM Fault σ α

namespace Action

variable {σ τ α : Type}

/-- Act on a part of the state. The part that was reached is put back also after a
    fault. -/
def within (part : σ → τ) (put : σ → τ → σ) (act : Action τ α) : Action σ α := fun s =>
  match act (part s) with
  | .ok a t => .ok a (put s t)
  | .error f t => .error f (put s t)

/-- Stop with `fault` unless `condition` holds. -/
def require (condition : Bool) (fault : Fault) : Action σ Unit :=
  if condition then pure () else throw fault

/-- The value of an optional result, or a fault if there is none. -/
def demand (value : Option α) (fault : Fault) : Action σ α :=
  match value with
  | some a => pure a
  | none => throw fault

/-- The value of a pure check, or its fault. -/
def ofExcept (result : Except Fault α) : Action σ α :=
  match result with
  | .ok a => pure a
  | .error f => throw f

end Action

end PagedServing
