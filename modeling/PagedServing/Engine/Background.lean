import PagedServing.Engine.Iteration

/-! # The background loop

The background loop runs iterations as long as there is work. Here it advances in turns: it
begins an iteration, or completes the one that is under way. After every action of a
client it makes all the turns that it can make.
-/

namespace PagedServing.Engine

variable {ω : Type}

/-- Whether the device is done with an iteration. One without work needs no device. -/
def isDone (host : Host ω) (e : Engine ω) (u : Underway) : Bool :=
  !u.prepared.hasWork || host.gate ≤ e.commands.length

/-- Whether the loop can make a turn. -/
def canTurn (host : Host ω) (e : Engine ω) : Bool :=
  match e.loop with
  | .resting => e.hasWork
  | .executing u => e.isDone host u
  | .absent | .dead => false

/-- Make one turn. -/
def move (host : Host ω) : Action (Engine ω) Unit := do
  match (← get).loop with
  | .resting =>
    let u ← commence
    modify fun e => { e with loop := .executing u }
  | .executing u =>
    let _ ← complete host u
    modify fun e => { e with loop := .resting }
  | .absent | .dead => return

/-- Make one turn. A fault ends the loop. -/
def turn (host : Host ω) : Action (Engine ω) Unit := do
  try
    move host
  catch fault =>
    report .error s!"Scheduling loop failed: {fault.message}"
    modify fun e => { e with loop := .dead, loopFailed := true }
    report .info "Scheduling loop stopped"

/-- Make turns as long as there is one to make, at most so many. -/
def turns (host : Host ω) : Nat → Action (Engine ω) Unit
  | 0 => return
  | n + 1 => do
    if (← get).canTurn host then
      turn host
      turns host n

/-- Make all the turns that there are to make. -/
def advance (host : Host ω) : Action (Engine ω) Unit := do
  turns host (2 * (← get).patience)

/-- Do what a client does while the loop runs: the loop advances afterwards. -/
def alongside {α : Type} (host : Host ω) (act : Action (Engine ω) α) :
    Action (Engine ω) α := do
  let a ← act
  advance host
  return a

/-- Start the background loop, unless it runs. -/
def start (host : Host ω) : Action (Engine ω) Unit := do
  let e ← get
  Action.require (!e.closed) .closed
  if !e.isRunning then
    report .info "Scheduling loop started"
    modify fun e => { e with loop := .resting }
    advance host

/-- Stop the background loop. The iteration under way is completed first. -/
def stop (host : Host ω) : Action (Engine ω) Unit := do
  if let .executing _ := (← get).loop then turn host
  if (← get).isRunning then report .info "Scheduling loop stopped"
  modify fun e => { e with loop := .absent }

end PagedServing.Engine
