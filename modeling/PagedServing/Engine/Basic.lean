import PagedServing.Engine.Host
import PagedServing.Scheduler.Iteration

/-! # The engine

An engine serves clients on top of a scheduler. Clients post commands; the scheduling loop
takes them over between two iterations, so nothing else ever touches the scheduler. A
request is in flight from its acceptance until its end has been delivered.
-/

namespace PagedServing

open Logging (Severity)

/-- What a client posts for the scheduling loop. -/
inductive Command where
  /-- Serve a sequence. -/
  | add (id : SeqId)
  /-- Cancel the request of a name. -/
  | cancel (requestId : String)
  deriving Repr, DecidableEq

/-- An iteration under way: the outputs of the requests refused at its beginning, and its
    plan. -/
structure Underway where
  refused : List Output
  prepared : Scheduler.Prepared

/-- Where the background loop stands. -/
inductive Loop where
  /-- It was not started, or it was stopped. -/
  | absent
  /-- It stands between two iterations. -/
  | resting
  /-- It waits for the device. -/
  | executing (iteration : Underway)
  /-- It met a fault. -/
  | dead

/-- Whether the loop drives the engine. -/
def Loop.isAlive : Loop → Bool
  | resting | executing _ => true
  | absent | dead => false

/-- The state of an engine, that of its host included. -/
structure Engine (ω : Type) where
  scheduler : Scheduler
  host : ω
  /-- The commands not taken over yet, oldest first. -/
  commands : List Command := []
  /-- The requests in flight, oldest first. -/
  live : List String := []
  /-- Whether new requests are taken. -/
  accepting : Bool := true
  /-- Whether the engine has been shut down. -/
  closed : Bool := false
  loop : Loop := .absent
  /-- Whether a background loop ever met a fault. -/
  loopFailed : Bool := false
  /-- The counts after the last iteration. -/
  stats : Stats := scheduler.stats

namespace Engine

variable {ω : Type}

/-- The component that reports about serving. -/
def source : String := "scalellm.engine.llm_engine"

/-- Act on the scheduler. -/
def onScheduler {α : Type} (act : Action Scheduler α) : Action (Engine ω) α :=
  Action.within (·.scheduler) (fun e s => { e with scheduler := s }) act

/-- Act on the scheduler and its device. -/
def onDriven {α : Type} (act : Action (Scheduler.Driven ω) α) : Action (Engine ω) α :=
  Action.within (fun e => ⟨e.scheduler, e.host⟩)
    (fun e d => { e with scheduler := d.scheduler, host := d.device }) act

/-- Report something. -/
def report (severity : Severity) (message : String) : Action (Engine ω) Unit :=
  onScheduler (Scheduler.onCache (Cache.report severity source message))

/-- Take the counts of the scheduler over. -/
def takeStats : Action (Engine ω) Unit :=
  modify fun e => { e with stats := e.scheduler.stats }

/-- Whether the loop has something to do. -/
def hasWork (e : Engine ω) : Bool :=
  !e.live.isEmpty || !e.commands.isEmpty

/-- Whether a background loop drives the engine. -/
def isRunning (e : Engine ω) : Bool :=
  e.loop.isAlive

/-- The sequences that wait to be taken over. -/
def posted (e : Engine ω) : List SeqId :=
  e.commands.filterMap fun
    | .add id => some id
    | .cancel _ => none

/-- More iterations than the requests at hand can take: each of them takes one for every
    token it may still get and one for its end, and commands take one. -/
def patience (e : Engine ω) : Nat :=
  let ids := e.scheduler.requests.values ++ e.posted
  ids.foldl (fun n id => n + (e.scheduler.sequence id).sampling.maxTokens + 1) 1

/-- What is reported about an engine that has been set up. -/
def greeting (c : Config) : String :=
  s!"Engine ready: {c.deviceBlocks} blocks of {c.blockSize} tokens, max_num_seqs=" ++
    s!"{c.maxSequences}, max_num_batched_tokens={c.maxBatchedTokens}, preemption_mode=" ++
    Text.quoted c.preemption.name

/-- An engine without requests. The configuration says how grave a record has to be to be
    kept. -/
def launch (config : Config) (host : ω) : Engine ω :=
  let idle := Scheduler.start config config.severity.level
  let journal := idle.cache.journal.write ⟨.info, source, greeting config⟩
  { scheduler := { idle with cache := { idle.cache with journal } }, host }

end Engine

end PagedServing
