import PagedServing.Engine.Host
import PagedServing.Rehearsal.Script

/-! # The stage of a rehearsal

A stage is a host that remembers what happened on it: what the device was given, and what
the caller was told, in the order in which it happened.
-/

namespace PagedServing.Rehearsal

open Cache (Moves)

/-- Something that happened on a stage. -/
inductive Event where
  /-- A request produced tokens. -/
  | tokens (requestId : String) (tokens : List Int)
  /-- A request ended. -/
  | ended (requestId : String) (reason : FinishReason)
  /-- Blocks were moved. -/
  | moved (swapOut swapIn : Moves) (copies : List (Int × Int))

namespace Event

/-- The name of the request that an event is about; a move of blocks is about none. -/
def requestId? : Event → Option String
  | tokens r _ => some r
  | ended r _ => some r
  | moved .. => none

end Event

/-- What happened on a stage. -/
structure Stage where
  /-- The number of batches executed. -/
  calls : Nat := 0
  /-- The batch executed last. -/
  batch : Option Batch := none
  events : List Event := []
  /-- The number of times that the caller was told of tokens. -/
  tokenCalls : Nat := 0
  /-- The number of times that the caller was told of an end. -/
  endCalls : Nat := 0
  /-- The number of times that the device was given up. -/
  shutdowns : Nat := 0

namespace Stage

/-- The stage after an event. -/
def record (s : Stage) (e : Event) : Stage :=
  { s with events := s.events ++ [e] }

/-- A device that follows a script. -/
def scripted (script : Script) : Device Stage where
  execute batch sequences s :=
    let call := s.calls + 1
    ({ result := script.answer call sequences }, { s with calls := call, batch := some batch })

/-- A device that runs a model. -/
def modelled (runner : Runner) : Device Stage where
  execute batch _ s :=
    let run := runner.run batch
    let s := { s with calls := s.calls + 1, batch := some batch }
    let s := if run.calls.contains .moveBlocks
      then s.record (.moved batch.swapOut batch.swapIn batch.copies) else s
    (run.execution, s)

/-- What a callback fails with. -/
def failure : CallbackError := { text := "boom" }

/-- A callback for tokens of which certain calls fail, the first one being number one. -/
def tokenCallback (failing : List Int) (requestId : String) (tokens : List Int) :
    Callback Stage := fun s =>
  let s := { s with tokenCalls := s.tokenCalls + 1 }
  if failing.contains s.tokenCalls then (.error failure, s)
  else (.ok (), s.record (.tokens requestId tokens))

/-- A callback for ends of which certain calls fail. -/
def endCallback (failing : List Int) (requestId : String) (reason : FinishReason) :
    Callback Stage := fun s =>
  let s := { s with endCalls := s.endCalls + 1 }
  if failing.contains s.endCalls then (.error failure, s)
  else (.ok (), s.record (.ended requestId reason))

/-- The device is given up once more. -/
def shutdown (s : Stage) : Stage :=
  { s with shutdowns := s.shutdowns + 1 }

end Stage

end PagedServing.Rehearsal
