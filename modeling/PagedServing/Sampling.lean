import PagedServing.Decimal.Number

/-! # Sampling

How the tokens of a completion are chosen, and when the completion ends.
-/

namespace PagedServing

/-- Sampling settings, as a caller gives them. -/
structure SamplingSettings where
  temperature : Number := .real 1.0
  /-- The greatest number of tokens to generate. -/
  maxTokens : Int := 64
  /-- Whether the end token of the model is an ordinary token. -/
  ignoreEos : Bool := false
  /-- Tokens that end the completion. -/
  stopTokens : List Int := []
  /-- Runs of tokens that end the completion. -/
  stopSequences : List (List Int) := []

/-- Sampling settings that have been checked. -/
structure Sampling where
  temperature : Float
  maxTokens : Nat
  ignoreEos : Bool
  stopTokens : List Int
  stopSequences : List (List Int)
  maxTokens_pos : 0 < maxTokens
  stopSequences_ne_nil : ∀ stop ∈ stopSequences, stop ≠ []

namespace SamplingSettings

/-- Why sampling settings are refused. -/
inductive Refusal where
  | temperature (given : Number)
  | maxTokens (given : Int)
  | emptyStopSequence

/-- The text of a refusal. -/
def Refusal.message : Refusal → String
  | temperature n =>
    s!"temperature must be > 1e-10, got {n.text}. " ++
      "Greedy sampling (temperature=0) is not permitted."
  | maxTokens n => s!"max_tokens must be > 0, got {n}"
  | emptyStopSequence => "stop_sequences must not contain empty sequences"

/-- Check sampling settings, the first fault found being the one reported. -/
def check (s : SamplingSettings) : Except Refusal Sampling :=
  if s.temperature.atMost 1e-10 then .error (.temperature s.temperature)
  else if maxTokens : s.maxTokens ≤ 0 then .error (.maxTokens s.maxTokens)
  else if stops : ∃ stop ∈ s.stopSequences, stop = [] then .error .emptyStopSequence
  else
    .ok
      { temperature := s.temperature.toFloat
        maxTokens := s.maxTokens.toNat
        ignoreEos := s.ignoreEos
        stopTokens := s.stopTokens
        stopSequences := s.stopSequences
        maxTokens_pos := by omega
        stopSequences_ne_nil := fun stop member empty => stops ⟨stop, member, empty⟩ }

end SamplingSettings

/-- The sampling of a request that asks for nothing in particular. -/
def Sampling.standard : Sampling where
  temperature := 1.0
  maxTokens := 64
  ignoreEos := false
  stopTokens := []
  stopSequences := []
  maxTokens_pos := by decide
  stopSequences_ne_nil := by simp

end PagedServing
