import PagedServing.Cache.Release
import PagedServing.Config
import PagedServing.Output
import PagedServing.Scheduler.Queue
import PagedServing.Scheduler.Stats

/-! # The scheduler

A request waits until it is admitted, then runs. Running sequences hold device blocks and
stand in the order of their arrival; so do the preempted ones, which were evicted and wait
to run again. Requests that have not ended are registered under their names.
-/

namespace PagedServing

open Logging (Severity)

/-- The state of a scheduler. -/
structure Scheduler where
  config : Config
  cache : Cache
  waiting : List SeqId := []
  running : List SeqId := []
  preempted : List SeqId := []
  /-- The requests that have not ended. -/
  requests : OrderedMap String SeqId := {}
  /-- Outputs that came up outside an iteration. -/
  pending : List Output := []
  /-- Iterations completed. -/
  iteration : Nat := 0
  /-- Preemptions in the last iteration. -/
  preemptedLast : Nat := 0
  /-- Preemptions so far. -/
  preemptions : Nat := 0
  /-- Requests that ended so far. -/
  ended : Nat := 0
  /-- The counts after the last iteration. -/
  stats : Stats := {}

namespace Scheduler

/-- The counts of a state. -/
def count (s : Scheduler) : Stats where
  iteration := s.iteration
  waiting := s.waiting.length
  running := s.running.length
  preempted := s.preempted.length
  total := s.cache.device.size
  free := s.cache.device.freeCount
  hostFree := s.cache.hostFreeCount
  preemptions := s.preemptions
  ended := s.ended

/-- The state with its counts taken. -/
def counted (s : Scheduler) : Scheduler :=
  { s with stats := s.count }

/-- An idle scheduler whose journal keeps records from level `threshold` on. -/
def start (config : Config) (threshold : Int) : Scheduler :=
  let cache : Cache :=
    { blockSize := config.blockSize
      device := .ofSize config.deviceBlocks config.blockSize
      host := if config.hostBlocks = 0 then none
        else some (.ofSize config.hostBlocks config.blockSize)
      sharing := config.sharing
      journal := { threshold }
      blockSize_pos := config.blockSize_pos }
  counted { config, cache }

/-- Whether no sequence is queued. -/
def isIdle (s : Scheduler) : Bool :=
  s.waiting.isEmpty && s.running.isEmpty && s.preempted.isEmpty

/-- The sequence of a number. -/
def sequence (s : Scheduler) (id : SeqId) : Sequence :=
  s.cache.sequence id

/-- Act on the cache. -/
def onCache {α : Type} (act : Action Cache α) : Action Scheduler α :=
  Action.within (·.cache) (fun s c => { s with cache := c }) act

/-- Look at a sequence. -/
def look (id : SeqId) : Action Scheduler Sequence :=
  onCache (Cache.look id)

/-- Change a sequence. -/
def edit (id : SeqId) (f : Sequence → Sequence) : Action Scheduler Unit :=
  onCache (Cache.edit id f)

/-- The component that reports about scheduling. -/
def source : String := "scalellm.engine.scheduler"

/-- Report something. -/
def report (severity : Severity) (message : String) : Action Scheduler Unit :=
  onCache (Cache.report severity source message)

/-- Whether a sequence precedes another in every queue. -/
def precedes (s : Scheduler) (a b : SeqId) : Bool :=
  (s.sequence a).precedes (s.sequence b)

/-- A queue with a sequence in the place of its arrival. -/
def queued (s : Scheduler) (id : SeqId) (queue : List SeqId) : List SeqId :=
  Queue.insert (s.precedes id) id queue

/-- A queue without a sequence that it holds. -/
def without (id : SeqId) (queue : List SeqId) : Except Fault (List SeqId) :=
  if id ∈ queue then .ok (queue.erase id) else .error .missingItem

/-- Take a sequence out of the running ones. -/
def stopRunning (id : SeqId) : Action Scheduler Unit := do
  let s ← get
  let rest ← Action.ofExcept (without id s.running)
  set { s with running := rest }

/-- End a sequence that is in no queue any more, and free its blocks. -/
def finish (id : SeqId) (reason : FinishReason) (error : Option String := none) :
    Action Scheduler Output := do
  if !(← look id).table.isEmpty then onCache (Cache.release id)
  edit id fun s => { s with status := reason.status, finishReason := some reason, error }
  let s ← look id
  modify fun state =>
    { state with requests := state.requests.erase s.requestId, ended := state.ended + 1 }
  report .debug <|
    s!"Request {Text.quoted s.requestId} finished: {reason.name}, " ++
      s!"{s.completion.length} tokens generated"
  edit id (·.delivered)
  return { requestId := s.requestId, tokens := s.fresh, reason := some reason, error }

end Scheduler

end PagedServing
