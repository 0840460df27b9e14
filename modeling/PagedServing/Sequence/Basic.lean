import PagedServing.Fault
import PagedServing.Offset
import PagedServing.Sampling

/-! # Sequences

A sequence is one request in service: its prompt and the completion generated so far, the
blocks that hold its keys and values, and where it stands. The tokens of a sequence are
its prompt followed by its completion.
-/

namespace PagedServing

/-- One request in service. -/
structure Sequence where
  /-- Sequences are numbered in the order of their construction. -/
  id : Nat
  /-- The name the caller uses. -/
  requestId : String
  status : Status := .waiting
  /-- Tokens in one block. -/
  blockSize : Nat
  prompt : List Int
  completion : List Int := []
  /-- The number of leading tokens whose keys and values are in the cache. -/
  computed : Int := 0
  /-- The number of prompt tokens that the cache served when blocks were allocated. -/
  cached : Int := 0
  /-- The blocks that cover the tokens, in order. -/
  table : List Int := []
  /-- The time of arrival. -/
  arrival : Rat
  sampling : Sampling
  finishReason : Option FinishReason := none
  /-- The error that ended the sequence. -/
  error : Option String := none
  preemptions : Nat := 0
  /-- The number of completion tokens handed to the caller. -/
  emitted : Nat := 0
  blockSize_pos : 0 < blockSize
  prompt_ne_nil : prompt ≠ []

namespace Sequence

/-- Some sequence. -/
instance : Inhabited Sequence where
  default :=
    { id := 0, requestId := "", blockSize := 1, prompt := [0], arrival := 0
      sampling := .standard, blockSize_pos := by decide, prompt_ne_nil := by simp }

/-- All tokens: the prompt, then the completion. -/
def tokens (s : Sequence) : List Int :=
  s.prompt ++ s.completion

/-- The number of tokens. -/
def length (s : Sequence) : Nat :=
  s.prompt.length + s.completion.length

@[simp]
theorem length_tokens (s : Sequence) : s.tokens.length = s.length := by
  simp [tokens, length]

/-- A sequence has a token. -/
theorem length_pos (s : Sequence) : 0 < s.length := by
  have := List.length_pos_iff.mpr s.prompt_ne_nil
  unfold length
  omega

/-- A sequence has a last token. -/
theorem tokens_ne_nil (s : Sequence) : s.tokens ≠ [] := by
  simp [tokens, s.prompt_ne_nil]

/-- The token added last. -/
def lastToken (s : Sequence) : Int :=
  s.tokens.getLast s.tokens_ne_nil

/-- The number of tokens still to be processed: the rest of the history before a prefill,
    one token afterwards. -/
def uncomputed (s : Sequence) : Int :=
  s.length - s.computed

/-- Whether the next step processes more than one token. -/
def isPrefill (s : Sequence) : Bool :=
  1 < s.uncomputed

/-- The number of blocks that the tokens take. -/
def blockCount (s : Sequence) : Nat :=
  (s.length + s.blockSize - 1) / s.blockSize

/-- The number of tokens in the last block. -/
def lastBlockLength (s : Sequence) : Nat :=
  s.length - (s.blockCount - 1) * s.blockSize

/-- The number of whole blocks that the cache served. -/
def cachedBlocks (s : Sequence) : Int :=
  s.cached / s.blockSize

/-- The number of tokens that the block table has room for. -/
def capacity (s : Sequence) : Nat :=
  s.table.length * s.blockSize

/-- Whether a sequence has ended. -/
def isFinished (s : Sequence) : Bool :=
  s.status.isTerminal

/-- Priority: the earlier arrival comes first, then the lower number. -/
def precedes (a b : Sequence) : Bool :=
  a.arrival < b.arrival || (a.arrival = b.arrival && a.id < b.id)

/-- The tokens of one block. -/
def block (s : Sequence) (index : Int) : Except Fault (List Int) :=
  if 0 ≤ index ∧ index < s.blockCount then
    .ok ((s.tokens.drop (index.toNat * s.blockSize)).take s.blockSize)
  else
    .error (.blockOutOfRange index s.blockCount)

/-- Add a generated token. A running sequence needs a slot for it. -/
def append (s : Sequence) (token : Int) : Except Fault Sequence :=
  if token < 0 then
    .error (.negativeToken token)
  else if s.status = .running ∧ s.capacity < s.length + 1 then
    .error (.noSlot s.requestId s.table.length (s.length + 1))
  else
    .ok { s with completion := s.completion ++ [token] }

/-- The completion tokens that the caller has not been handed. -/
def fresh (s : Sequence) : List Int :=
  s.completion.drop s.emitted

/-- The sequence once its fresh tokens have been handed over. -/
def delivered (s : Sequence) : Sequence :=
  { s with emitted := s.emitted + s.fresh.length }

/-- A short description for a person. -/
def describe (s : Sequence) : String :=
  s!"Sequence(seq_id={s.id}, request_id={Text.quoted s.requestId}, " ++
    s!"status={s.status.name}, num_tokens={s.length}, num_blocks={s.table.length})"

end Sequence

end PagedServing
