import PagedServing.Fault

/-! # Text as tokens

The plainest of tokenizers: a token for every character, its code point.
-/

namespace PagedServing.Text

/-- A tokenizer and its end token, if it has one. -/
structure Tokenizer where
  endToken : Option Int

namespace Tokenizer

/-- The tokens of a text. -/
def encode (s : String) : List Int :=
  s.toList.map fun c => c.toNat

/-- The code point that a token stands for. A half of a surrogate pair is one as well. -/
def codePoint (token : Int) : Except Fault Nat :=
  if token < -0x80000000 ∨ 0x80000000 ≤ token then .error .wordOverflow
  else if token < 0 ∨ 0x110000 ≤ token then .error .notCodePoint
  else .ok token.toNat

/-- The code points of tokens. The end token stands for nothing. -/
def decode (t : Tokenizer) (tokens : List Int) : Except Fault (List Nat) :=
  (tokens.filter fun token => t.endToken ≠ some token).mapM codePoint

end Tokenizer

end PagedServing.Text
