import PagedServing.Rehearsal.Stage
import PagedServing.Scheduler.Audit
import PagedServing.Scheduler.Iteration

/-! # A scheduler on the bench

A scheduler whose single operations are tried out, together with the stage it runs on and
the batches that it planned when it was asked to.
-/

namespace PagedServing.Rehearsal

open Scheduler (Driven)

/-- A scheduler on the bench. -/
structure Bench where
  driven : Driven Stage
  /-- The batches planned outside an iteration, oldest first. -/
  batches : List Batch := []

namespace Bench

/-- The scheduler itself. -/
def scheduler (b : Bench) : Scheduler :=
  b.driven.scheduler

/-- Act on the scheduler and the stage. -/
def onDriven {α : Type} (act : Action (Driven Stage) α) : Action Bench α :=
  Action.within (·.driven) (fun b d => { b with driven := d }) act

/-- Act on the scheduler. -/
def act {α : Type} (a : Action Scheduler α) : Action Bench α :=
  onDriven (Driven.onScheduler a)

/-- The batch at an offset, the one planned last being -1. -/
def batch (index : Int) : Action Bench Batch := do
  Action.demand (Offset.get? (← get).batches index) .offsetOutOfRange

/-- The sequence at an offset among all those constructed. -/
def sequenceAt (index : Int) : Action Bench SeqId := do
  Action.demand (Offset.resolve (← get).scheduler.cache.sequences.nextId index) .offsetOutOfRange

/-- Act on the scheduler with the sequence at an offset. -/
def withSequence {α : Type} (index : Int) (a : SeqId → Action Scheduler α) : Action Bench α := do
  let id ← sequenceAt index
  act (a id)

/-- Act on the scheduler with the batch at an offset. -/
def withBatch {α : Type} (index : Int) (a : Batch → Action Scheduler α) : Action Bench α := do
  let b ← batch index
  act (a b)

/-- Plan a batch, and keep it. -/
def schedule : Action Bench Batch := do
  let batch ← act Scheduler.schedule
  modify fun b => { b with batches := b.batches ++ [batch] }
  return batch

/-- Construct a sequence and have it served. -/
def addNew (d : Draft) : Action Scheduler Unit := do
  let id ← Scheduler.create d
  Scheduler.add id

/-- Construct a sequence and have it checked. -/
def checkNew (check : Scheduler → Sequence → Except Fault Unit) (d : Draft) :
    Action Scheduler Unit := do
  let id ← Scheduler.create d
  let s ← get
  Action.ofExcept (check s (s.sequence id))

/-- Put a sequence at the end of the queue of a name. -/
def enqueue (id : SeqId) (queue : String) : Action Scheduler Unit :=
  modify fun s =>
    match queue with
    | "waiting" => { s with waiting := s.waiting ++ [id] }
    | "running" => { s with running := s.running ++ [id] }
    | "preempted" => { s with preempted := s.preempted ++ [id] }
    | _ => s

/-- Take device blocks away for good. -/
def leak (count : Int) : Action Scheduler (List Int) :=
  Scheduler.onCache (Cache.onDevice (Pool.allocate count))

/-- What an iteration did: its result, and the batch that was executed, if one was. -/
structure Step where
  result : StepResult
  batch : Option Batch
  /-- The fault that an audit found afterwards. -/
  fault : Option Fault := none

/-- Run an iteration. -/
def step (device : Option (Device Stage)) : Action Bench Step := do
  onDriven (modify fun d => { d with device := { d.device with batch := none } })
  let result ← onDriven (Driven.step device)
  return { result, batch := (← get).driven.device.batch }

/-- Run iterations as long as a sequence is queued, at most so many, and audit the
    scheduler after each. -/
def run (device : Option (Device Stage)) : Nat → Action Bench (List Step)
  | 0 => return []
  | n + 1 => do
    if (← get).scheduler.isIdle then return []
    let s ← step device
    let fault := match (← get).scheduler.audit with
      | .ok () => none
      | .error fault => some fault
    return { s with fault } :: (← run device n)

end Bench

end PagedServing.Rehearsal
