import PagedServing.Digest
import PagedServing.Fault

/-! # Hashes of blocks

The hash of a block is a digest of its tokens together with the hash of the block before
it, so that it stands for all tokens up to the end of the block.
-/

namespace PagedServing

/-- The place holder for a hash that was not computed. -/
def noHash : Int := -1

/-- The bytes that the hash of a block digests: eight for the hash before it, if there is
    one, and four for every token. -/
def blockBytes (before : Int) (tokens : List Int) : List UInt8 :=
  (if before = noHash then [] else Digest.bytesOf 8 before) ++ tokens.flatMap (Digest.bytesOf 4)

/-- Whether a hash fits its eight bytes. -/
def hashFits (hash : Int) : Bool :=
  hash = noHash || (0 ≤ hash && hash < (Nat.pow 2 64 : Nat))

/-- Whether a token fits its four bytes. -/
def tokenFits (token : Int) : Bool :=
  -(Nat.pow 2 31 : Nat) ≤ token && token < (Nat.pow 2 31 : Nat)

/-- The hash of a block of tokens after a block with the hash `before`. -/
def blockHash (before : Int) (tokens : List Int) : Except Fault Int :=
  if hashFits before && tokens.all tokenFits then
    .ok (Digest.xxh64 (blockBytes before tokens)).toNat
  else
    .error .wordOverflow

/-- The hashes of a chain of blocks, each hashed after the one before it. -/
def blockHashes (before : Int) : List (List Int) → Except Fault (List Int)
  | [] => .ok []
  | tokens :: rest => do
    let hash ← blockHash before tokens
    return hash :: (← blockHashes hash rest)

end PagedServing
