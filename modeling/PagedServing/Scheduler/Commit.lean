import PagedServing.Batch.Basic
import PagedServing.Device
import PagedServing.Scheduler.Basic

/-! # Committing an executed batch

Every sequence of the batch gets its token, and ends if a stop condition holds. A batch
that failed as a whole ends all its sequences; block moves that may not have taken place
are undone, so that their sequences are computed again.
-/

namespace PagedServing.Scheduler

open Logging (Severity)

/-- Why a sequence ends after a token, if it does. Stop tokens come before stop sequences,
    and both before the limits of length. -/
def stopReason? (s : Scheduler) (q : Sequence) (token : Int) : Option FinishReason :=
  if token = s.config.eos ∧ !q.sampling.ignoreEos then some .stop
  else if token ∈ q.sampling.stopTokens then some .stop
  else if q.sampling.stopSequences.any (·.isSuffixOf q.completion) then some .stop
  else if q.sampling.maxTokens ≤ q.completion.length then some .length
  else if s.config.maxLength ≤ q.length then some .length
  else none

/-- Commit the sample of one sequence. -/
def commitOne (id : SeqId) (sample : Sample) : Action Scheduler Output := do
  let q ← look id
  Action.require (q.status = .running) (.leftRunning q.requestId)
  edit id fun q => { q with computed := q.length }
  if !sample.success then
    stopRunning id
    finish id .error (some "Engine step failed for this sequence")
  else
    onCache (Cache.append id sample.token)
    if q.isPrefill then onCache (Cache.publish id)
    let s ← get
    let q ← look id
    match s.stopReason? q sample.token with
    | some reason =>
      stopRunning id
      finish id reason
    | none =>
      edit id (·.delivered)
      return { requestId := q.requestId, tokens := q.fresh }

/-- Commit samples one after the other. -/
def commitEach : List (SeqId × Sample) → Action Scheduler (List Output)
  | [] => return []
  | (id, sample) :: rest => do
    let output ← commitOne id sample
    return output :: (← commitEach rest)

/-- End every sequence of a failed batch that still runs. -/
def failEach (text : String) : List SeqId → Action Scheduler (List Output)
  | [] => return []
  | id :: rest => do
    if (← look id).status = .running then
      stopRunning id
      let output ← finish id .error (some text)
      return output :: (← failEach text rest)
    else
      failEach text rest

/-- Whether a block table names one of the blocks. -/
def touches (blocks table : List Int) : Bool :=
  table.any (· ∈ blocks)

/-- Free the host blocks of preempted sequences that may never have been written. -/
def dropSwappedOut (targets : List Int) : List SeqId → Action Scheduler Unit
  | [] => return ()
  | id :: rest => do
    let s ← get
    let q := s.sequence id
    if s.cache.isSwapped id && touches targets q.table then
      onCache (Cache.release id)
      edit id fun q => { q with computed := 0 }
      report .warning <|
        s!"Request {Text.quoted q.requestId} lost its swapped blocks; it will be recomputed"
    dropSwappedOut targets rest

/-- Preempt running sequences whose device blocks may never have been written. What they
    hold must not be published. -/
def dropSwappedIn (targets : List Int) : List SeqId → Action Scheduler Unit
  | [] => return ()
  | id :: rest => do
    let q ← look id
    if touches targets q.table then
      stopRunning id
      edit id fun q => { q with computed := 0 }
      onCache (Cache.release id)
      edit id fun q => { q with status := .preempted }
      modify fun s => { s with preempted := s.queued id s.preempted }
      report .warning <|
        s!"Request {Text.quoted q.requestId} lost its swapped-in blocks; " ++
          "it will be recomputed"
    dropSwappedIn targets rest

/-- Undo the block moves of a batch that failed. -/
def dropBlockOps (b : Batch) : Action Scheduler Unit := do
  dropSwappedOut b.swapOut.values (← get).preempted
  dropSwappedIn b.swapIn.values (← get).running

/-- End the sequences of a batch that failed as a whole. -/
def failBatch (b : Batch) (text : String) : Action Scheduler (List Output) := do
  report .error s!"Engine step failed for {b.size} sequence(s): {text}"
  let outputs ← failEach text b.sequences
  dropBlockOps b
  return outputs

/-- Commit the samples of a batch. There has to be one for every sequence. -/
def commit (b : Batch) (samples : List Sample) : Action Scheduler (List Output) :=
  if samples.length ≠ b.size then
    failBatch b <|
      s!"Executor returned {samples.length} results for a batch of {b.size} sequences"
  else
    commitEach (b.sequences.zip samples)

end PagedServing.Scheduler
