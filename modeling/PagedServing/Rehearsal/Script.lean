import PagedServing.Model.Runner

/-! # Scripted devices

A scripted device needs no model: which tokens it answers with, and which of its calls
fail, is written down beforehand. It serves to rehearse what an engine does.
-/

namespace PagedServing.Rehearsal

/-- What a scripted device answers. -/
structure Script where
  /-- The tokens of a completion, which are repeated when they run out. -/
  tokens : List Int := [7]
  /-- The tokens of the completions of certain requests. -/
  ownTokens : OrderedMap String (List Int) := {}
  /-- Instead of the tokens: `a`, `b`, `m` give the token `(a * last + b * length) mod m`
      after a sequence. -/
  affine : Option (Int × Int × Int) := none
  /-- The calls that fail, the first one being number one. -/
  failing : List Int := []
  /-- The text of their failures. -/
  failure : String := "device lost"
  /-- The requests that never succeed. -/
  unsuccessful : List String := []
  /-- The number of samples too many, or too few, that certain calls answer with. -/
  surplus : List (Int × Int) := []

namespace Script

/-- The token for a sequence. -/
def token (script : Script) (s : Sequence) : Int :=
  match script.affine with
  | some (a, b, m) => Int.fmod (a * s.lastToken + b * s.length) m
  | none =>
    let tokens := (script.ownTokens.get? s.requestId).getD script.tokens
    tokens.getD (s.completion.length % tokens.length) 0

/-- The sample for a sequence. -/
def sample (script : Script) (s : Sequence) : Sample where
  token := script.token s
  success := !script.unsuccessful.contains s.requestId

/-- The samples of a call with some added at the end, or taken away from there. -/
def withSurplus (script : Script) (call : Int) (samples : List Sample) : List Sample :=
  let n := ((script.surplus.find? (·.1 = call)).map (·.2)).getD 0
  if n < 0 then samples.take (samples.length - (-n).toNat)
  else samples ++ List.replicate n.toNat { token := 0 }

/-- The answer to a call. -/
def answer (script : Script) (call : Nat) (sequences : List Sequence) :
    Except String (List Sample) :=
  if script.failing.contains call then .error script.failure
  else .ok (script.withSurplus call (sequences.map script.sample))

end Script

end PagedServing.Rehearsal
