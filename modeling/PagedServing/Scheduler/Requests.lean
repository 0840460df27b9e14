import PagedServing.Scheduler.Basic

/-! # Taking requests in and giving them up -/

namespace PagedServing.Scheduler

/-- Refuse a prompt that leaves no room for a generated token. Only the configuration is
    looked at. -/
def checkCapacity (s : Scheduler) (q : Sequence) : Except Fault Unit :=
  if s.config.maxLength ≤ q.prompt.length then
    let blocks := (s.cache.blocksFor (q.prompt.length + 1)).toNat
    .error (.promptTooLong q.requestId q.prompt.length blocks s.config.maxLength
      s.cache.device.size s.cache.blockSize)
  else
    .ok ()

/-- Refuse a request that can never be served, or whose name is taken. -/
def checkAdmission (s : Scheduler) (q : Sequence) : Except Fault Unit :=
  if s.requests.contains q.requestId then .error (.inFlight q.requestId)
  else s.checkCapacity q

/-- Construct a sequence. -/
def create (d : Draft) : Action Scheduler SeqId :=
  onCache (Cache.create? d)

/-- Let a sequence wait for its admission. -/
def add (id : SeqId) : Action Scheduler Unit := do
  let s ← get
  let q := s.sequence id
  match s.checkAdmission q with
  | .error fault =>
    report .warning s!"Rejected request: {fault.message}"
    throw fault
  | .ok () =>
    edit id fun q => { q with status := .waiting }
    modify fun s =>
      { s with waiting := s.queued id s.waiting, requests := s.requests.insert q.requestId id }

/-- Take a sequence out of the queue of its status. -/
def leaveQueue (id : SeqId) : Action Scheduler Unit := do
  let s ← get
  let q := s.sequence id
  match q.status with
  | .waiting =>
    let rest ← Action.ofExcept (without id s.waiting)
    set { s with waiting := rest }
  | .running => stopRunning id
  | .preempted =>
    let rest ← Action.ofExcept (without id s.preempted)
    set { s with preempted := rest }
  | .finished | .cancelled => throw (.notLive q.requestId q.status)

/-- Cancel a request and free its blocks at once. The output will be handed back by the
    next iteration too. A name that is not registered is ignored. -/
def abort (requestId : String) : Action Scheduler (Option Output) := do
  match (← get).requests.get? requestId with
  | none => return none
  | some id =>
    leaveQueue id
    let output ← finish id .cancelled
    modify fun s => { s with pending := s.pending ++ [output] }
    report .debug s!"Cancelled request {Text.quoted requestId}"
    return some output

/-- End sequences for one reason, one after the other. -/
def finishEach (reason : FinishReason) : List SeqId → Action Scheduler (List Output)
  | [] => return []
  | id :: rest => do
    leaveQueue id
    let output ← finish id reason
    return output :: (← finishEach reason rest)

/-- End every registered request. -/
def releaseAll (reason : FinishReason := .cancelled) : Action Scheduler (List Output) := do
  let outputs ← finishEach reason (← get).requests.values
  modify fun s => counted { s with pending := s.pending ++ outputs }
  return outputs

/-- The finish reason that a word names. -/
def reasonOfName (word : String) : Except Fault FinishReason :=
  match FinishReason.ofName? word with
  | some reason => .ok reason
  | none => .error (.unknownReason word)

/-- Hand over the outputs that came up outside an iteration. -/
def takePending : Action Scheduler (List Output) :=
  modifyGet fun s => (s.pending, { s with pending := [] })

end PagedServing.Scheduler
