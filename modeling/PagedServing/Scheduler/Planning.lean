import PagedServing.Batch.Assembly
import PagedServing.Scheduler.Basic

/-! # Planning an iteration

First the running sequences are made to fit: while their next tokens need more blocks than
are free, the latest arrival is preempted. Then preempted sequences run again, in the order
of arrival, and after the last of them the waiting ones. The batch is assembled from all
that run.
-/

namespace PagedServing.Scheduler

open Cache (Moves)

/-- The number of free blocks that the next token of a sequence takes. -/
def demandOf (s : Scheduler) (id : SeqId) : Int :=
  s.cache.growth id ((s.sequence id).length + 1)

/-- The number of free blocks that the next tokens of all running sequences take. -/
def demand (s : Scheduler) : Int :=
  total (s.running.map s.demandOf)

/-- Give the blocks of a sequence back: to the host pool if it may and can take them,
    otherwise by freeing them. The answer says which, and which blocks are moved. -/
def evict (id : SeqId) : Action Scheduler (Preemption × Moves) := do
  let s ← get
  if s.config.preemption = .swap && s.cache.canSwapOut id then
    return (.swap, ← onCache (Cache.swapOut id))
  else
    onCache (Cache.release id)
    edit id fun q => { q with computed := 0 }
    return (.recompute, {})

/-- Preempt a sequence that has just been taken out of the running ones. -/
def preempt (id : SeqId) : Action Scheduler Moves := do
  edit id fun q => { q with preemptions := q.preemptions + 1 }
  modify fun s =>
    { s with preemptedLast := s.preemptedLast + 1, preemptions := s.preemptions + 1 }
  let (mode, moves) ← evict id
  edit id fun q => { q with status := .preempted }
  modify fun s => { s with preempted := s.queued id s.preempted }
  let s ← get
  report .info <|
    s!"Preempted request {Text.quoted (s.sequence id).requestId} ({mode.name}); " ++
      s!"{s.cache.device.freeCount} blocks free, {s.running.length} running"
  return moves

/-- Preempt running sequences, the latest arrival first, until the rest can grow by their
    next tokens. The sequences are given with the latest first. -/
def reserve (moves : Moves) : List SeqId → Action Scheduler Moves
  | [] => return moves
  | latest :: others => do
    let s ← get
    if s.demand ≤ s.cache.device.freeCount then return moves
    set { s with running := s.running.dropLast }
    let more ← preempt latest
    reserve (moves.insertAll more.entries) others

/-- What the sequences that run so far lay claim to. -/
structure Plan where
  /-- Blocks for their next tokens. -/
  reserved : Int
  /-- Tokens of the batch. -/
  tokens : Int
  /-- Host blocks that come back. -/
  swapIn : Moves := {}

/-- The claims of the running sequences. -/
def claims (s : Scheduler) : Plan where
  reserved := s.demand
  tokens := total (s.running.map fun id => (s.sequence id).uncomputed)

/-- Whether a sequence can run beside those that do. -/
def canStart (s : Scheduler) (plan : Plan) (id : SeqId) : Bool :=
  let q := s.sequence id
  let tokens := if s.cache.isSwapped id then q.uncomputed else q.length
  let blocks := max (q.table.length : Int) (s.cache.blocksFor (q.length + 1))
  s.running.length < s.config.maxSequences &&
    plan.tokens + tokens ≤ s.config.maxBatchedTokens &&
    blocks ≤ s.cache.device.freeCount - plan.reserved

/-- Let a sequence run that has its blocks. -/
def startRunning (plan : Plan) (id : SeqId) : Action Scheduler Plan := do
  edit id fun q => { q with status := .running }
  modify fun s => { s with running := s.queued id s.running }
  let s ← get
  return { plan with
    reserved := plan.reserved + s.demandOf id
    tokens := plan.tokens + (s.sequence id).uncomputed }

/-- Give a preempted sequence its blocks back. -/
def restore (id : SeqId) : Action Scheduler Moves := do
  if (← get).cache.isSwapped id then
    onCache (Cache.swapIn id)
  else
    onCache (Cache.allocate id)
    return {}

/-- Let preempted sequences run again, up to the first that cannot. -/
def readmit (plan : Plan) : List SeqId → Action Scheduler Plan
  | [] => return plan
  | id :: rest => do
    let s ← get
    if !s.canStart plan id then return plan
    set { s with preempted := rest }
    let moves ← restore id
    let plan ← startRunning { plan with swapIn := plan.swapIn.insertAll moves.entries } id
    let q ← look id
    report .debug <|
      s!"Resumed request {Text.quoted q.requestId} (preempted {q.preemptions} time(s))"
    readmit plan rest

/-- Let waiting sequences run, up to the first that cannot. -/
def admitWaiting (plan : Plan) : List SeqId → Action Scheduler Plan
  | [] => return plan
  | id :: rest => do
    let s ← get
    if !s.canStart plan id then return plan
    set { s with waiting := rest }
    onCache (Cache.allocate id)
    let plan ← startRunning plan id
    admitWaiting plan rest

/-- The limits of a batch. -/
def limits (s : Scheduler) : Assembly.Limits where
  budget := s.config.maxBatchedTokens
  maxLength := s.config.maxLength
  maxSequences := some s.config.maxSequences

/-- End the sequences that are too long to go on. -/
def rejectEach : List SeqId → Action Scheduler Unit
  | [] => return ()
  | id :: rest => do
    stopRunning id
    let output ← finish id .rejected (some "Sequence reached the maximum length")
    modify fun s => { s with pending := s.pending ++ [output] }
    rejectEach rest

/-- Decide the work of the next iteration. -/
def schedule : Action Scheduler Batch := do
  modify fun s => { s with preemptedLast := 0 }
  let swapOut ← reserve {} (← get).running.reverse
  let s ← get
  let plan ← readmit s.claims s.preempted
  let s ← get
  let plan ← if s.preempted.isEmpty then admitWaiting plan s.waiting else pure plan
  let s ← get
  let assembly ← onCache (Assembly.build s.limits s.running)
  rejectEach assembly.rejected
  return { assembly.batch with swapIn := plan.swapIn, swapOut }

end PagedServing.Scheduler
