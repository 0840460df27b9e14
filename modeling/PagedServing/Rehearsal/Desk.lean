import PagedServing.Batch.Assembly

/-! # A cache on the desk

A cache whose single operations are tried out, together with the names that its sequences
are called by and the batch that was assembled last.
-/

namespace PagedServing.Rehearsal

/-- A cache on the desk. -/
structure Desk where
  cache : Cache
  names : OrderedMap String SeqId := {}
  batch : Batch := {}

namespace Desk

/-- Act on the cache. -/
def act {α : Type} (a : Action Cache α) : Action Desk α :=
  Action.within (·.cache) (fun d c => { d with cache := c }) a

/-- The sequence of a name. -/
def find (d : Desk) (name : String) : SeqId :=
  (d.names.get? name).getD d.cache.sequences.nextId

/-- Construct a sequence and name it. -/
def create (name : String) (draft : Draft) : Action Desk Unit := do
  let id ← act (Cache.create? draft)
  modify fun d => { d with names := d.names.insert name id }

/-- Add generated tokens to a sequence, one after the other. -/
def appendAll (id : SeqId) (tokens : List Int) : Action Cache Unit :=
  tokens.forM (Cache.append id)

/-- Assemble a batch, and keep it. -/
def build (limits : Assembly.Limits) (candidates : List SeqId) : Action Desk Assembly := do
  let a ← act (Assembly.build limits candidates)
  modify fun d => { d with batch := a.batch }
  return a

/-- Construct a sequence, cover it with blocks, and let it run with some of its tokens
    computed. -/
def enter (draft : Draft) (computed : Int) : Action Cache SeqId := do
  let id ← Cache.create? draft
  Cache.allocate id
  Cache.edit id fun s => { s with computed, status := .running }
  return id

/-- Construct sequences one after the other. -/
def enterAll : List (Draft × Int) → Action Cache (List SeqId)
  | [] => return []
  | (draft, computed) :: rest => do
    let id ← enter draft computed
    return id :: (← enterAll rest)

end Desk

end PagedServing.Rehearsal
