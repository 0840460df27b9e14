import PagedServing.Logging.Severity
import PagedServing.Text.Capitals
import PagedServing.Text.Listed

/-! # Configuration

Settings are what an operator writes down. A configuration is what is left of them once
they have been checked: its fields are in range, and the facts that the serving core
relies on are part of it.
-/

namespace PagedServing

open Logging (Severity)

/-- How running sequences give their blocks back when memory is short. -/
inductive Preemption where
  /-- The blocks are freed, and the history is computed again later. -/
  | recompute
  /-- The blocks move to the host pool while it has room. -/
  | swap
  deriving Repr, DecidableEq

namespace Preemption

/-- The word for a mode. -/
def name : Preemption → String
  | recompute => "recompute"
  | swap => "swap"

/-- All modes. -/
def all : List Preemption := [recompute, swap]

/-- The mode of a word. -/
def ofName? (s : String) : Option Preemption :=
  all.find? (·.name = s)

end Preemption

/-- The settings of an engine, as they were written down. -/
structure Settings where
  /-- Tokens in one block. -/
  blockSize : Int := 16
  /-- Blocks of the device pool. -/
  deviceBlocks : Int := 1024
  /-- Blocks of the host pool, which holds swapped-out sequences. -/
  hostBlocks : Int := 0
  /-- Sequences that run at the same time. -/
  maxSequences : Int := 256
  /-- Tokens processed in one iteration. -/
  maxBatchedTokens : Int := 4096
  /-- Tokens of a sequence, prompt and completion together. -/
  maxModelLength : Int := 2048
  /-- The token that ends a generation. -/
  eos : Int := -1
  /-- The word for the preemption mode. -/
  preemption : String := "recompute"
  /-- Whether sequences share blocks with equal beginnings. -/
  sharing : Bool := false
  /-- The name of the least severity that is logged. -/
  logLevel : String := "INFO"

/-- Settings that have been checked. -/
structure Config where
  blockSize : Nat
  deviceBlocks : Nat
  hostBlocks : Nat
  maxSequences : Nat
  maxBatchedTokens : Nat
  maxModelLength : Nat
  eos : Int
  preemption : Preemption
  sharing : Bool
  severity : Severity
  blockSize_pos : 0 < blockSize
  deviceBlocks_pos : 0 < deviceBlocks
  maxSequences_pos : 0 < maxSequences
  one_lt_maxModelLength : 1 < maxModelLength
  /-- The whole context of any sequence fits into one batch. -/
  maxModelLength_le : maxModelLength ≤ maxBatchedTokens
  /-- Swapping has somewhere to swap to. -/
  hostBlocks_pos : preemption = .swap → 0 < hostBlocks

namespace Settings

/-- Why settings are refused. -/
inductive Refusal where
  | blockSize (given : Int)
  | deviceBlocks (given : Int)
  | hostBlocks (given : Int)
  | maxBatchedTokens (given : Int)
  | maxSequences (given : Int)
  | maxModelLength (given : Int)
  | preemption (given : String)
  | swapWithoutHost
  | logLevel (given : String)
  | batchTooSmall (tokens length : Int)
  deriving Repr, DecidableEq

/-- The text of a refusal. -/
def Refusal.message : Refusal → String
  | blockSize n => s!"block_size must be positive, got {n}"
  | deviceBlocks n => s!"num_gpu_blocks must be positive, got {n}"
  | hostBlocks n => s!"num_cpu_blocks must be non-negative, got {n}"
  | maxBatchedTokens n => s!"max_num_batched_tokens must be positive, got {n}"
  | maxSequences n => s!"max_num_seqs must be positive, got {n}"
  | maxModelLength n => s!"max_model_len must be greater than 1, got {n}"
  | preemption word =>
    "preemption_mode must be one of " ++ Text.choices (Preemption.all.map (·.name)) ++
      ", got " ++ Text.quoted word
  | swapWithoutHost => "preemption_mode='swap' requires num_cpu_blocks > 0"
  | logLevel word =>
    "log_level must be one of " ++ Text.choices (Severity.all.map (·.name)) ++
      ", got " ++ Text.quoted word
  | batchTooSmall tokens length =>
    s!"max_num_batched_tokens ({tokens}) must be >= max_model_len ({length}) " ++
      "to accommodate the full context length in a single batch."

/-- Check settings, the first fault found being the one reported. A level given by the
    environment takes precedence over the one in the settings. -/
def check (environment : Option String) (s : Settings) : Except Refusal Config :=
  if blockSize : s.blockSize ≤ 0 then .error (.blockSize s.blockSize)
  else if deviceBlocks : s.deviceBlocks ≤ 0 then .error (.deviceBlocks s.deviceBlocks)
  else if hostBlocks : s.hostBlocks < 0 then .error (.hostBlocks s.hostBlocks)
  else if s.maxBatchedTokens ≤ 0 then .error (.maxBatchedTokens s.maxBatchedTokens)
  else if maxSequences : s.maxSequences ≤ 0 then .error (.maxSequences s.maxSequences)
  else if maxModelLength : s.maxModelLength ≤ 1 then .error (.maxModelLength s.maxModelLength)
  else
    match Preemption.ofName? s.preemption with
    | none => .error (.preemption s.preemption)
    | some mode =>
      if swap : mode = .swap ∧ s.hostBlocks = 0 then .error .swapWithoutHost
      else
        let word := Text.capitals (environment.getD s.logLevel)
        match Severity.ofName? word with
        | none => .error (.logLevel word)
        | some severity =>
          if batch : s.maxBatchedTokens < s.maxModelLength then
            .error (.batchTooSmall s.maxBatchedTokens s.maxModelLength)
          else
            .ok
              { blockSize := s.blockSize.toNat
                deviceBlocks := s.deviceBlocks.toNat
                hostBlocks := s.hostBlocks.toNat
                maxSequences := s.maxSequences.toNat
                maxBatchedTokens := s.maxBatchedTokens.toNat
                maxModelLength := s.maxModelLength.toNat
                eos := s.eos
                preemption := mode
                sharing := s.sharing
                severity := severity
                blockSize_pos := by omega
                deviceBlocks_pos := by omega
                maxSequences_pos := by omega
                one_lt_maxModelLength := by omega
                maxModelLength_le := by omega
                hostBlocks_pos := by
                  intro isSwap
                  have : s.hostBlocks ≠ 0 := fun zero => swap ⟨isSwap, zero⟩
                  omega }

end Settings

/-- The length of the longest sequence that can ever be served: the device pool bounds it
    as well as the model. -/
def Config.maxLength (c : Config) : Nat :=
  min c.maxModelLength (c.deviceBlocks * c.blockSize)

end PagedServing
