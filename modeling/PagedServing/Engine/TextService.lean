import PagedServing.Engine.Offline
import PagedServing.Text.CodePoints

/-! # Serving text

The interface for prompts and completions that are text. The end token of the model is the
one of the tokenizer, unless it is set.
-/

namespace PagedServing

open Text (Tokenizer)

/-- Settings in which the end token was left to the tokenizer, unless one was given. -/
def Settings.withTokenizer (s : Settings) (t : Tokenizer) (given : Option Int) : Settings :=
  { s with eos := given.getD (t.endToken.getD (-1)) }

namespace Engine

variable {ω : Type}

/-- A prompt, as text or as tokens. -/
inductive Prompt where
  | text (s : String)
  | tokens (ts : List Int)

/-- The tokens of a prompt. -/
def Prompt.encode : Prompt → List Int
  | .text s => Tokenizer.encode s
  | .tokens ts => ts

/-- Complete prompts, in their order. The text of a completion is given as code points. -/
def generateText (host : Host ω) (t : Tokenizer) (prompts : List Prompt)
    (plan : SamplingPlan := .shared .standard) :
    Action (Engine ω) (List (Completion × List Nat)) := do
  let completions ← generate host (prompts.map (·.encode)) plan
  Action.ofExcept <| completions.mapM fun c => do
    let text ← t.decode c.tokens
    return (c, text)

end Engine

end PagedServing
