import PagedServing.Model.Runner

/-! # Shift models

A shift model expects, after every token, the token that stands a fixed distance further on
in its vocabulary. It is sure of it, so that sampling always gives that token.
-/

namespace PagedServing.Model

/-- A shift model. -/
structure Shift where
  /-- The size of the vocabulary. -/
  vocabulary : Nat
  distance : Int

namespace Shift

/-- The token expected after a token. -/
def next (m : Shift) (token : Int) : Int :=
  (token + m.distance) % m.vocabulary

/-- The logits after a token: far apart for the expected token and all the others. -/
def row (m : Shift) (token : Int) : List Float32 :=
  (List.range m.vocabulary).map fun (t : Nat) => if t = m.next token then 1000 else -1000

/-- The logits after every token of a batch. -/
def logits (m : Shift) (b : Batch) : Logits :=
  .ofRows (b.tokens.map m.row)

/-- A runner of a shift model that can move blocks. -/
def runner (m : Shift) : Runner where
  model b _ := .ok (m.logits b)
  moveBlocks := some fun _ => .ok ()

end Shift

end PagedServing.Model
