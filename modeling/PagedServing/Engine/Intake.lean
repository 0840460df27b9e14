import PagedServing.Engine.Basic

/-! # Taking requests in

What clients do between two actions of the scheduling loop. A request that can never be
served is refused at once, and nothing is heard of it afterwards.
-/

namespace PagedServing.Engine

variable {ω : Type}

/-- Post a command. -/
def post (c : Command) : Action (Engine ω) Unit :=
  modify fun e => { e with commands := e.commands ++ [c] }

/-- Refuse what can never be served. -/
def checkCapacity (id : SeqId) : Action (Engine ω) Unit := do
  let s := (← get).scheduler
  match s.checkCapacity (s.sequence id) with
  | .ok () => return
  | .error fault =>
    report .warning s!"Rejected request: {fault.message}"
    throw fault

/-- Accept a constructed sequence, or refuse it. -/
def accept (id : SeqId) : Action (Engine ω) String := do
  let e ← get
  let requestId := (e.scheduler.sequence id).requestId
  Action.require e.accepting .shuttingDown
  Action.require (!e.live.contains requestId) (.inFlight requestId)
  checkCapacity id
  modify fun e => { e with live := e.live ++ [requestId] }
  post (.add id)
  return requestId

/-- Take a request in, and give its name back. -/
def newRequest (prompt : List Int) (sampling : Sampling := .standard)
    (requestId : Option String := none) : Action (Engine ω) String := do
  let blockSize := (← get).scheduler.config.blockSize
  let id ← onScheduler (Scheduler.create { prompt, sampling, blockSize, requestId })
  accept id

/-- Have a request cancelled. A name that is not in flight is ignored. -/
def cancel (requestId : String) : Action (Engine ω) Unit :=
  post (.cancel requestId)

end PagedServing.Engine
