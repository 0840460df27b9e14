import PagedServing.Engine.Basic

/-! # Iterations of the engine

An iteration takes the posted commands over, has the scheduler run one of its own, and
delivers what came of it to the caller. A callback that fails stops the delivery; the
outputs behind it are not delivered any more.
-/

namespace PagedServing.Engine

variable {ω : Type}

/-- Apply a command. The output tells of a request that is refused here. -/
def apply : Command → Action (Engine ω) (List Output)
  | .add id => do
    let requestId := ((← get).scheduler.sequence id).requestId
    try
      onScheduler (Scheduler.add id)
      return []
    catch fault =>
      return [{ requestId, reason := some .rejected, error := some fault.message }]
  | .cancel requestId => do
    let _ ← onScheduler (Scheduler.abort requestId)
    return []

/-- Take the oldest command over. -/
def applyNext : Action (Engine ω) (List Output) := do
  match (← get).commands with
  | [] => return []
  | c :: rest =>
    modify fun e => { e with commands := rest }
    apply c

/-- Take a number of commands over. -/
def applyMany : Nat → Action (Engine ω) (List Output)
  | 0 => return []
  | n + 1 => do
    let refused ← applyNext
    return refused ++ (← applyMany n)

/-- Take all commands over. -/
def applyCommands : Action (Engine ω) (List Output) := do
  applyMany (← get).commands.length

/-- Call back. -/
def call (callback : Callback ω) : Action (Engine ω) Unit := fun e =>
  match callback e.host with
  | (.ok (), host) => .ok () { e with host }
  | (.error error, host) => .error (.callbackFailed error) { e with host }

/-- Hand the tokens of an output over. -/
def giveTokens (host : Host ω) (o : Output) : Action (Engine ω) Unit :=
  match host.onTokens with
  | none => return
  | some callback => if o.tokens.isEmpty then return else call (callback o.requestId o.tokens)

/-- Tell of the end of a request. -/
def announceEnd (host : Host ω) (requestId : String) (reason : FinishReason) :
    Action (Engine ω) Unit :=
  match host.onEnd with
  | none => return
  | some callback => call (callback requestId reason)

/-- A request is in flight no more. -/
def forget (requestId : String) : Action (Engine ω) Unit :=
  modify fun e => { e with live := e.live.erase requestId }

/-- Deliver one output. -/
def deliverOne (host : Host ω) (o : Output) : Action (Engine ω) Unit := do
  giveTokens host o
  match o.reason with
  | none => return
  | some reason =>
    announceEnd host o.requestId reason
    forget o.requestId

/-- Deliver outputs in their order. -/
def deliver (host : Host ω) : List Output → Action (Engine ω) Unit
  | [] => return
  | o :: rest => do
    deliverOne host o
    deliver host rest

/-- Begin an iteration. -/
def commence : Action (Engine ω) Underway := do
  let refused ← applyCommands
  let prepared ← onScheduler Scheduler.prepare
  return { refused, prepared }

/-- Execute an iteration that has begun, and deliver its outputs. -/
def complete (host : Host ω) (u : Underway) : Action (Engine ω) StepResult := do
  let result ← onDriven (Scheduler.Driven.complete host.device u.prepared)
  let outputs := u.refused ++ result.outputs
  takeStats
  deliver host outputs
  return { result with outputs }

/-- Run one iteration. -/
def step (host : Host ω) : Action (Engine ω) StepResult :=
  commence >>= complete host

end PagedServing.Engine
