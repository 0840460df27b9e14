import PagedServing.BlockHash
import PagedServing.Sequence.Basic

/-! # Chains of hashes

The whole blocks at the beginning of a list of tokens are hashed one after the other, each
together with the hash before it. Hashing never fails on tokens that fit their bytes.
-/

namespace PagedServing

/-- The tokens of one block. -/
def blockOf (size : Nat) (tokens : List Int) (index : Nat) : List Int :=
  (tokens.drop (index * size)).take size

/-- The hash of the first `count` blocks of a list of tokens. -/
def chainHash (size : Nat) (tokens : List Int) : Nat → Int
  | 0 => noHash
  | count + 1 =>
      (Digest.xxh64 (blockBytes (chainHash size tokens count) (blockOf size tokens count))).toNat

theorem chainHash_succ_ne (size : Nat) (tokens : List Int) (count : Nat) :
    chainHash size tokens (count + 1) ≠ noHash := by
  simp only [chainHash, noHash]
  omega

theorem hashFits_chainHash (size : Nat) (tokens : List Int) (count : Nat) :
    hashFits (chainHash size tokens count) = true := by
  cases count with
  | zero => rfl
  | succ count =>
      have bounded := UInt64.toNat_lt
        (Digest.xxh64 (blockBytes (chainHash size tokens count) (blockOf size tokens count)))
      simp only [hashFits, chainHash, Bool.or_eq_true, Bool.and_eq_true]
      right
      exact ⟨decide_eq_true (Int.natCast_nonneg _), decide_eq_true (Int.ofNat_lt.mpr bounded)⟩

theorem mem_of_mem_blockOf {size : Nat} {tokens : List Int} {index : Nat} {t : Int}
    (member : t ∈ blockOf size tokens index) : t ∈ tokens :=
  List.mem_of_mem_drop (List.mem_of_mem_take member)

/-- The next hash of a chain is the hash of the next block after the hash so far. -/
theorem blockHash_chainHash {size : Nat} {tokens : List Int}
    (fits : ∀ t ∈ tokens, tokenFits t = true) (count : Nat) :
    blockHash (chainHash size tokens count) (blockOf size tokens count) =
      .ok (chainHash size tokens (count + 1)) := by
  have all : (blockOf size tokens count).all tokenFits = true :=
    List.all_eq_true.mpr fun t member => fits t (mem_of_mem_blockOf member)
  simp [blockHash, hashFits_chainHash, all, chainHash]

theorem blockOf_append {size : Nat} {tokens more : List Int} {index : Nat}
    (inside : (index + 1) * size ≤ tokens.length) :
    blockOf size (tokens ++ more) index = blockOf size tokens index := by
  have start : index * size ≤ tokens.length :=
    Nat.le_trans (Nat.mul_le_mul_right size (Nat.le_succ index)) inside
  have room : size ≤ (tokens.drop (index * size)).length := by
    rw [List.length_drop]
    rw [Nat.add_mul, Nat.one_mul] at inside
    omega
  unfold blockOf
  rw [List.drop_append_of_le_length start, List.take_append_of_le_length room]

theorem chainHash_append {size : Nat} {tokens more : List Int} {count : Nat}
    (inside : count * size ≤ tokens.length) :
    chainHash size (tokens ++ more) count = chainHash size tokens count := by
  induction count with
  | zero => rfl
  | succ count ih =>
      have start : count * size ≤ tokens.length :=
        Nat.le_trans (Nat.mul_le_mul_right size (Nat.le_succ count)) inside
      simp only [chainHash, ih start, blockOf_append inside]

theorem take_succ_blocks (size : Nat) (tokens : List Int) (count : Nat) :
    tokens.take ((count + 1) * size) = tokens.take (count * size) ++ blockOf size tokens count := by
  rw [Nat.add_mul, Nat.one_mul, List.take_add, blockOf]

theorem chainHash_congr {size : Nat} {s t : List Int} {count : Nat}
    (inside : count * size ≤ s.length) (inside' : count * size ≤ t.length)
    (same : s.take (count * size) = t.take (count * size)) :
    chainHash size s count = chainHash size t count := by
  have room : ∀ {u : List Int}, count * size ≤ u.length →
      count * size ≤ (u.take (count * size)).length := fun {u} inside => by
    rw [List.length_take]
    omega
  calc chainHash size s count
      = chainHash size (s.take (count * size) ++ s.drop (count * size)) count := by
        rw [List.take_append_drop]
    _ = chainHash size (t.take (count * size) ++ t.drop (count * size)) count := by
        rw [chainHash_append (room inside), chainHash_append (room inside'), same]
    _ = chainHash size t count := by rw [List.take_append_drop]

/-- If a hash stands for one block after one hash, it stands for one list of tokens. -/
theorem chainHash_unique {size : Nat} {s t : List Int} {i j : Nat}
    (collide : ∀ i' ≤ i, ∀ j' ≤ j, chainHash size s (i' + 1) = chainHash size t (j' + 1) →
      chainHash size s i' = chainHash size t j' ∧ blockOf size s i' = blockOf size t j')
    (same : chainHash size s (i + 1) = chainHash size t (j + 1)) :
    i = j ∧ s.take ((i + 1) * size) = t.take ((j + 1) * size) := by
  induction i generalizing j with
  | zero =>
      obtain ⟨before, block⟩ := collide 0 (Nat.le_refl 0) j (Nat.le_refl j) same
      cases j with
      | zero =>
          rw [take_succ_blocks, take_succ_blocks, block]
          simp
      | succ j => exact absurd before.symm (chainHash_succ_ne _ _ _)
  | succ i ih =>
      obtain ⟨before, block⟩ := collide (i + 1) (Nat.le_refl _) j (Nat.le_refl j) same
      cases j with
      | zero => exact absurd before (chainHash_succ_ne _ _ _)
      | succ j =>
          obtain ⟨place, prior⟩ := ih (fun i' few j' few' =>
            collide i' (Nat.le_succ_of_le few) j' (Nat.le_succ_of_le few')) before
          refine ⟨congrArg (· + 1) place, ?_⟩
          rw [take_succ_blocks _ _ (i + 1), take_succ_blocks _ _ (j + 1), prior, block]

theorem length_blockOf {size : Nat} {tokens : List Int} {index : Nat} :
    (blockOf size tokens index).length = min size (tokens.length - index * size) := by
  simp [blockOf]

theorem length_blockOf_eq_iff {size : Nat} {tokens : List Int} {index : Nat} (positive : 0 < size) :
    (blockOf size tokens index).length = size ↔ (index + 1) * size ≤ tokens.length := by
  rw [length_blockOf, Nat.add_mul, Nat.one_mul]
  omega

namespace Sequence

variable {s : Sequence} {index : Nat}

theorem lt_blockCount_iff : index < s.blockCount ↔ index * s.blockSize < s.length := by
  unfold blockCount
  rw [Nat.lt_div_iff_mul_lt s.blockSize_pos]
  have := s.blockSize_pos
  omega

theorem lt_blockCount (inside : (index + 1) * s.blockSize ≤ s.length) : index < s.blockCount :=
  lt_blockCount_iff.mpr (Nat.lt_of_lt_of_le
    (Nat.mul_lt_mul_of_pos_right (Nat.lt_succ_self index) s.blockSize_pos) inside)

theorem block_eq (inside : index < s.blockCount) :
    s.block index = .ok (blockOf s.blockSize s.tokens index) := by
  have inside : (index : Int) < s.blockCount := Int.ofNat_lt.mpr inside
  simp [block, inside, blockOf]

end Sequence

end PagedServing
