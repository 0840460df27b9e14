import PagedServing.Scheduler.Basic

/-! # Auditing a scheduler

An audit checks that every queued sequence is queued once, where its status says, with
slots for its tokens if it runs; that exactly the registered requests are queued; and that
exactly the device blocks named by their tables are in use.
-/

namespace PagedServing.Scheduler

/-- All queued sequences, each with the status that its queue stands for. -/
def queue (s : Scheduler) : List (SeqId × Status) :=
  s.waiting.map (·, .waiting) ++ s.running.map (·, .running) ++ s.preempted.map (·, .preempted)

/-- Check queued sequences, and return the number of those seen. -/
def auditQueue (s : Scheduler) (seen : List SeqId) :
    List (SeqId × Status) → Except Fault Nat
  | [] => .ok seen.length
  | (id, status) :: rest =>
    let q := s.sequence id
    if id ∈ seen then .error (.queuedTwice q.requestId)
    else if q.status ≠ status then .error (.misplaced q.requestId q.status status)
    else if status = .running ∧ q.capacity < q.length then
      .error (.overCapacity q.requestId q.length q.capacity)
    else s.auditQueue (id :: seen) rest

/-- The device blocks that queued sequences name, each once. -/
def tabledBlocks (s : Scheduler) : List Int :=
  let device := s.queue.filter fun e => !s.cache.isSwapped e.1
  (device.flatMap fun e => (s.sequence e.1).table).eraseDups

/-- Audit a scheduler. The first fault found is the one reported. -/
def audit (s : Scheduler) : Except Fault Unit := do
  let queued ← s.auditQueue [] s.queue
  if queued ≠ s.requests.size then throw (.registryMismatch s.requests.size queued)
  let expected : Int := s.cache.device.size - s.tabledBlocks.length
  if s.cache.device.freeCount ≠ expected then
    throw (.freeMismatch s.cache.device.freeCount expected)

end PagedServing.Scheduler
