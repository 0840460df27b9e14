import PagedServing.Sequence.Status

/-! # Outputs

What the scheduler hands back after an iteration. Failures and cancellations travel the
same way as tokens.
-/

namespace PagedServing

/-- What one request produced since its last output. -/
structure Output where
  requestId : String
  /-- The tokens produced, in order. -/
  tokens : List Int := []
  /-- Why the request ended, on its last output. -/
  reason : Option FinishReason := none
  /-- The text of the error that ended it. -/
  error : Option String := none
  deriving Repr, DecidableEq

/-- Whether an output is the last one of its request. -/
def Output.isLast (o : Output) : Bool :=
  o.reason.isSome

/-- Everything that one iteration produced. -/
structure StepResult where
  outputs : List Output := []
  /-- Prompt tokens processed. -/
  prefillTokens : Int := 0
  /-- Other tokens processed. -/
  decodeTokens : Int := 0
  /-- Sequences preempted. -/
  preempted : Nat := 0
  deriving Repr, DecidableEq

namespace StepResult

/-- The tokens processed. -/
def tokens (r : StepResult) : Int :=
  r.prefillTokens + r.decodeTokens

/-- The last outputs of the requests that ended. -/
def ended (r : StepResult) : List Output :=
  r.outputs.filter (·.isLast)

end StepResult

end PagedServing
