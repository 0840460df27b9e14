import PagedServing.Engine.Intake
import PagedServing.Engine.Iteration

/-! # Generating offline

Several prompts are served together on behalf of one caller, who waits for all of them.
-/

namespace PagedServing.Engine

variable {ω : Type}

/-- The sampling of several prompts. -/
inductive SamplingPlan where
  /-- One for all of them. -/
  | shared (s : Sampling)
  /-- One for each of them, in order. -/
  | each (s : List Sampling)

/-- The sampling of each of so many prompts. -/
def SamplingPlan.settings (prompts : Nat) : SamplingPlan → Except Fault (List Sampling)
  | .shared s => .ok (List.replicate prompts s)
  | .each ss =>
    if ss.length = prompts then .ok ss else .error (.settingsMismatch ss.length prompts)

/-- What came of a prompt. -/
structure Completion where
  tokens : List Int
  reason : FinishReason
  deriving Repr, DecidableEq

/-- The tokens that outputs hold for a request. -/
def tokensOf (requestId : String) (outputs : List Output) : List Int :=
  (outputs.filter (·.requestId = requestId)).flatMap (·.tokens)

/-- The reason that outputs give for the end of a request, the last one if there are
    several. -/
def reasonOf? (requestId : String) (outputs : List Output) : Option FinishReason :=
  ((outputs.filter (·.requestId = requestId)).filterMap (·.reason)).getLast?

/-- The completion of a request that has ended. -/
def completionOf? (outputs : List Output) (requestId : String) : Option Completion :=
  (reasonOf? requestId outputs).map fun reason => ⟨tokensOf requestId outputs, reason⟩

/-- Take prompts in, one after the other. -/
def newRequests : List (List Int × Sampling) → Action (Engine ω) (List String)
  | [] => return []
  | (prompt, sampling) :: rest => do
    let requestId ← newRequest prompt sampling
    return requestId :: (← newRequests rest)

/-- Run iterations until all the requests have ended, at most so many. -/
def gather (host : Host ω) (requestIds : List String) :
    Nat → List Output → Action (Engine ω) (List Completion)
  | 0, outputs => Action.demand (requestIds.mapM (completionOf? outputs)) .stalled
  | n + 1, outputs =>
    match requestIds.mapM (completionOf? outputs) with
    | some completions => return completions
    | none => do
      let result ← step host
      gather host requestIds n (outputs ++ result.outputs)

/-- Complete prompts, in their order. -/
def generate (host : Host ω) (prompts : List (List Int))
    (plan : SamplingPlan := .shared .standard) : Action (Engine ω) (List Completion) := do
  Action.require (!(← get).isRunning) .loopRunning
  let settings ← Action.ofExcept (plan.settings prompts.length)
  let requestIds ← newRequests (prompts.zip settings)
  gather host requestIds (← get).patience []

end PagedServing.Engine
