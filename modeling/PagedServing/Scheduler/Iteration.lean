import PagedServing.Device
import PagedServing.Scheduler.Commit
import PagedServing.Scheduler.Planning
import PagedServing.Scheduler.Requests

/-! # Iterations

An iteration plans a batch, has it executed, and commits what came of it. The outputs that
came up since the last iteration are handed back with its own.
-/

namespace PagedServing.Scheduler

/-- An iteration whose batch has been planned and not been executed. -/
structure Prepared where
  batch : Batch
  /-- Sequences preempted while planning. -/
  preempted : Nat
  /-- Outputs that came up before. -/
  outputs : List Output

/-- Plan an iteration. -/
def prepare : Action Scheduler Prepared := do
  let batch ← schedule
  let preempted := (← get).preemptedLast
  let outputs ← takePending
  return { batch, preempted, outputs }

/-- Whether there is something to execute. -/
def Prepared.hasWork (p : Prepared) : Bool :=
  !p.batch.isEmpty || p.batch.hasBlockOps

/-- The sequences of a batch. -/
def members (s : Scheduler) (b : Batch) : List Sequence :=
  b.sequences.map s.sequence

/-- Keep what a device reported. -/
def keepRecords (records : List Logging.Record) : Action Scheduler Unit :=
  onCache (modify fun c => { c with journal := records.foldl (·.write ·) c.journal })

/-- Commit the execution of a planned batch. -/
def settle (p : Prepared) (e : Execution) : Action Scheduler (List Output) := do
  keepRecords e.records
  match e.result with
  | .ok samples => commit p.batch samples
  | .error text => failBatch p.batch text

/-- End an iteration: count it, and gather its result. -/
def conclude (p : Prepared) (outputs : List Output) : Action Scheduler StepResult := do
  modify fun s => counted { s with iteration := s.iteration + 1 }
  let tokens := fun (n : Int) => if p.hasWork then n else 0
  return {
    outputs := p.outputs ++ outputs
    prefillTokens := tokens p.batch.prefillTokens
    decodeTokens := tokens p.batch.decodeTokens
    preempted := p.preempted }

/-- A scheduler together with the state of its device. -/
structure Driven (ω : Type) where
  scheduler : Scheduler
  device : ω

namespace Driven

variable {ω : Type}

/-- Act on the scheduler. -/
def onScheduler {α : Type} (act : Action Scheduler α) : Action (Driven ω) α :=
  Action.within (·.scheduler) (fun s t => { s with scheduler := t }) act

/-- Execute a planned batch. -/
def execute (device : Device ω) (p : Prepared) : Action (Driven ω) Execution := do
  let s ← get
  let (execution, state) := device.execute p.batch (s.scheduler.members p.batch) s.device
  set { s with device := state }
  return execution

/-- Execute a planned iteration, if it has work, and commit it. -/
def complete (device : Device ω) (p : Prepared) : Action (Driven ω) StepResult := do
  if p.hasWork then
    let execution ← execute device p
    onScheduler (settle p execution >>= conclude p)
  else
    onScheduler (conclude p [])

/-- Run one iteration on a device. -/
def step (device : Option (Device ω)) : Action (Driven ω) StepResult := do
  let device ← Action.demand device .noDevice
  let p ← onScheduler prepare
  complete device p

end Driven

end PagedServing.Scheduler
