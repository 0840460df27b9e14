import PagedServing.Batch.Basic
import PagedServing.Cache.Coverage

/-! # Assembling a batch

Running sequences are packed into a batch, the ones with priority first. A sequence takes
part if the tokens it has to process fit into the budget and its table can be made to
cover its next token too. Otherwise it waits for a later iteration.
-/

namespace PagedServing

/-- What has been packed so far. -/
structure Assembly where
  batch : Batch
  /-- The sequences that take part. -/
  admitted : List SeqId := []
  /-- The sequences that are too long to go on. -/
  rejected : List SeqId := []
  /-- The number of tokens that take part. -/
  tokens : Int := 0

namespace Assembly

/-- The limits of a batch. -/
structure Limits where
  /-- The greatest number of tokens. -/
  budget : Int
  /-- Sequences of this length cannot go on. -/
  maxLength : Int
  /-- The greatest number of sequences, if there is one. -/
  maxSequences : Option Int := none

/-- Whether another sequence may take part. -/
def Limits.haveRoom (l : Limits) (admitted : List SeqId) : Bool :=
  match l.maxSequences with
  | some n => admitted.length < n
  | none => true

/-- Let a sequence take part, and grow its table by the room for its next token. -/
def takeIn (a : Assembly) (id : SeqId) : Action Cache Assembly := do
  let before ← Cache.look id
  let copy ← Cache.grow id (before.length + 1)
  let s ← Cache.look id
  let batch ← Action.ofExcept
    ({ a.batch with copies := a.batch.copies ++ copy.toList }.add s)
  return { a with
    batch
    admitted := a.admitted ++ [id]
    tokens := a.tokens + s.uncomputed }

/-- Consider one candidate. -/
def consider (l : Limits) (a : Assembly) (id : SeqId) : Action Cache Assembly := do
  let c ← get
  let s := c.sequence id
  if s.status ≠ .running then return a
  else if l.maxLength ≤ s.length then return { a with rejected := a.rejected ++ [id] }
  else if !l.haveRoom a.admitted then return a
  else if l.budget < a.tokens + s.uncomputed then return a
  else if !c.canAppend id (s.length + 1) then return a
  else a.takeIn id

/-- Put a candidate in front of the first one that does not precede it. -/
def rank (c : Cache) (id : SeqId) : List SeqId → List SeqId
  | [] => [id]
  | other :: rest =>
    if (c.sequence other).precedes (c.sequence id) then other :: rank c id rest
    else id :: other :: rest

/-- The candidates in the order of their priority. -/
def prioritised (c : Cache) (candidates : List SeqId) : List SeqId :=
  candidates.foldr (rank c) []

/-- The component that reports about batches. -/
def source : String := "scalellm.engine.batch"

/-- Assemble a batch from candidates. -/
def build (l : Limits) (candidates : List SeqId) : Action Cache Assembly := do
  let c ← get
  let start : Assembly := { batch := { blockSize := c.blockSize } }
  let a ← (prioritised c candidates).foldlM (consider l) start
  let deferred : Int := candidates.length - a.admitted.length - a.rejected.length
  if deferred ≠ 0 then
    Cache.report .debug source <|
      s!"Deferred {deferred} sequence(s) to the next iteration " ++
        s!"({a.tokens}/{l.budget} tokens batched)"
  return a

end Assembly

end PagedServing
