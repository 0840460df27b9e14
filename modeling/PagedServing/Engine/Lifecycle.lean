import PagedServing.Decimal.Number
import PagedServing.Engine.Background
import PagedServing.Engine.Intake

/-! # Draining and shutting down

To drain an engine is to wait until nothing is in flight. To shut it down is to take no
more requests, to drain it, and to release whatever is left. An engine is shut down once.
-/

namespace PagedServing.Engine

variable {ω : Type}

/-- Run iterations as long as there is work, at most so many. -/
def stepWhileWork (host : Host ω) : Nat → Action (Engine ω) Unit
  | 0 => do Action.require (!(← get).hasWork) .stalled
  | n + 1 => do
    if (← get).hasWork then
      let _ ← step host
      stepWhileWork host n

/-- Wait until nothing is in flight. Without a background loop the iterations run here, and
    the timeout does not matter. With one, it has got as far as it can: what is still in
    flight stays so, until the timeout if there is one. -/
def drain (host : Host ω) (timeout : Option Number) : Action (Engine ω) Bool := do
  let e ← get
  if e.loopFailed then throw .loopFailed
  else if !e.isRunning then
    stepWhileWork host e.patience
    return true
  else if e.live.isEmpty then return true
  else if timeout.isSome then return false
  else throw .stalled

/-- Have requests cancelled one after the other. -/
def cancelEach (host : Host ω) : List String → Action (Engine ω) Unit
  | [] => return
  | requestId :: rest => do
    alongside host (cancel requestId)
    cancelEach host rest

/-- Drain the engine; after the timeout, cancel what is left and drain it again. -/
def drainOrCancel (host : Host ω) (timeout : Option Number) : Action (Engine ω) Unit := do
  if !(← drain host timeout) then
    let left := (← get).live
    let after := (timeout.map (·.text)).getD ""
    report .warning s!"Timed out after {after}s, cancelling {left.length} request(s)"
    cancelEach host left
    let _ ← drain host none

/-- Whether a fault is an error of an engine: its loop is dead, or a callback failed with such an
    error. -/
def isEngineError : Fault → Bool
  | .loopFailed => true
  | .callbackFailed error => error.ofEngine
  | _ => false

/-- Bring the requests in flight to an end. The answer is the error of an engine that has kept them
    from it. Other faults are passed on. -/
def windDown (host : Host ω) (cancelRunning : Bool) (timeout : Option Number) :
    Action (Engine ω) (Option Fault) := do
  if cancelRunning then cancelEach host (← get).live
  try
    drainOrCancel host timeout
    pure none
  catch fault =>
    Action.require (isEngineError fault) fault
    report .error "Scheduling loop is dead, cancelling the requests still in flight"
    pure (some fault)

/-- Release every request and every block. The outputs are what is left to deliver. -/
def releaseAll : Action (Engine ω) (List Output) := do
  let refused ← applyCommands
  let _ ← onScheduler (Scheduler.releaseAll .cancelled)
  let outputs ← onScheduler Scheduler.takePending
  takeStats
  return refused ++ outputs

/-- Deliver the last outputs. After an error nothing more is delivered: the requests in flight are
    only forgotten. -/
def deliverLast (host : Host ω) (failure : Option Fault) (outputs : List Output) :
    Action (Engine ω) Unit :=
  if failure.isNone then deliver host outputs else modify fun e => { e with live := [] }

/-- Close the engine and give up its device. -/
def close (host : Host ω) : Action (Engine ω) Unit :=
  modify fun e => { e with closed := true, host := host.shutdown e.host }

/-- Act, and close the engine in any case. -/
def thenClose (host : Host ω) (act : Action (Engine ω) Unit) : Action (Engine ω) Unit := do
  try
    act
  catch fault =>
    close host
    throw fault
  close host

/-- Check that no device block is in use. -/
def checkReleased : Action (Engine ω) Unit := do
  let device := (← get).scheduler.cache.device
  let leaked : Int := device.size - device.freeCount
  Action.require (leaked = 0) (.blocksLeaked leaked)

/-- Shut the engine down. An error that kept requests from their end is passed on at last. -/
def shutdown (host : Host ω) (cancelRunning : Bool) (timeout : Option Number) :
    Action (Engine ω) Unit := do
  if (← get).closed then return
  modify fun e => { e with accepting := false }
  let flag := if cancelRunning then "True" else "False"
  report .info <|
    s!"Shutting down engine with {(← get).live.length} request(s) in flight " ++
      s!"(cancel_running={flag})"
  let failure ← windDown host cancelRunning timeout
  stop host
  let outputs ← releaseAll
  thenClose host (deliverLast host failure outputs)
  checkReleased
  report .info "Engine shut down"
  if let some fault := failure then throw fault

end PagedServing.Engine
