import Mathlib.Data.Int.ModEq
import PagedServing.Proofs.Cache.Chain

/-! # Hashes of prefixes

The bytes that are digested for a block can be read back: the hash before the block, if there is
one, takes eight of them and every token four, so that two blocks of one length with the same bytes
are equal and come after the same hash. If the digest tells apart the bytes that occur, the hash of
a block stands for all tokens up to the end of the block.
-/

namespace PagedServing

namespace Digest

theorem length_bytesOf (count : Nat) (n : Int) : (bytesOf count n).length = count := by
  simp [bytesOf]

theorem bytesOf_succ (count : Nat) (n : Int) :
    bytesOf (count + 1) n = UInt8.ofNat (n % 256).toNat :: bytesOf count (n / 256) := by
  have shifted : ∀ i : Nat, n.fdiv ((256 ^ (i + 1) : Nat) : Int) =
      (n / 256).fdiv ((256 ^ i : Nat) : Int) := fun i => by
    rw [Int.fdiv_eq_ediv_of_nonneg _ (Int.natCast_nonneg _),
      Int.fdiv_eq_ediv_of_nonneg _ (Int.natCast_nonneg _), Int.ediv_ediv_of_nonneg (by decide),
      Nat.pow_succ, Nat.mul_comm]
    rfl
  simp only [bytesOf, List.range_succ_eq_map, List.map_cons, List.map_map]
  congr 1
  · exact congrArg (fun k : Int => UInt8.ofNat (k % 256).toNat) (Int.fdiv_one n)
  · exact List.map_congr_left fun i _ =>
      congrArg (fun k : Int => UInt8.ofNat (k.emod 256).toNat) (shifted i)

theorem ofNat_emod_inj {m n : Int}
    (same : UInt8.ofNat (m % 256).toNat = UInt8.ofNat (n % 256).toNat) : m % 256 = n % 256 := by
  have same := congrArg UInt8.toNat same
  simp only [UInt8.toNat_ofNat'] at same
  omega

theorem bytesOf_modEq {count : Nat} {m n : Int} (same : bytesOf count m = bytesOf count n) :
    m ≡ n [ZMOD 256 ^ count] := by
  induction count generalizing m n with
  | zero => exact Int.modEq_one
  | succ count ih =>
      rw [bytesOf_succ, bytesOf_succ, List.cons.injEq] at same
      obtain ⟨lowest, higher⟩ := same
      have digits : ∀ k : Int, 256 * (k / 256) + k % 256 = k := fun k => Int.mul_ediv_add_emod k 256
      have parts : 256 * (m / 256) + m % 256 ≡ 256 * (n / 256) + n % 256 [ZMOD 256 * 256 ^ count] :=
        (ih higher).mul_left'.add (ofNat_emod_inj lowest ▸ Int.ModEq.rfl)
      rwa [digits, digits, mul_comm, ← pow_succ] at parts

theorem bytesOf_inj {count : Nat} {m n : Int} (same : bytesOf count m = bytesOf count n)
    (close : |n - m| < 256 ^ count) : m = n :=
  (Int.eq_of_sub_eq_zero (Int.eq_zero_of_abs_lt_dvd (bytesOf_modEq same).dvd close)).symm

end Digest

open Digest

variable {size : Nat} {before before' : Int} {s t : List Int}

theorem bytesOf_token_inj {m n : Int} (fits : tokenFits m = true) (fits' : tokenFits n = true)
    (same : bytesOf 4 m = bytesOf 4 n) : m = n := by
  simp only [tokenFits, Bool.and_eq_true, decide_eq_true_eq, Nat.pow_eq] at fits fits'
  exact bytesOf_inj same (abs_lt.mpr (by omega))

theorem bytesOf_hash_inj {m n : Int} (fits : hashFits m = true) (fits' : hashFits n = true)
    (there : m ≠ noHash) (there' : n ≠ noHash) (same : bytesOf 8 m = bytesOf 8 n) : m = n := by
  simp only [hashFits, Bool.or_eq_true, Bool.and_eq_true, decide_eq_true_eq, Nat.pow_eq]
    at fits fits'
  exact bytesOf_inj same (abs_lt.mpr (by omega))

theorem bytesOf_tokens_inj (length : s.length = t.length) (fits : ∀ x ∈ s, tokenFits x = true)
    (fits' : ∀ x ∈ t, tokenFits x = true)
    (same : s.flatMap (bytesOf 4) = t.flatMap (bytesOf 4)) : s = t := by
  induction s generalizing t with
  | nil => exact (List.length_eq_zero_iff.mp length.symm).symm
  | cons m s ih =>
      cases t with
      | nil => cases length
      | cons n t =>
          rw [List.forall_mem_cons] at fits fits'
          obtain ⟨first, rest⟩ := List.append_inj (by simpa only [List.flatMap_cons] using same)
            (by rw [length_bytesOf, length_bytesOf])
          rw [bytesOf_token_inj fits.1 fits'.1 first,
            ih (Nat.succ.inj length) fits.2 fits'.2 rest]

theorem blockBytes_inj (length : s.length = t.length) (hashed : hashFits before = true)
    (hashed' : hashFits before' = true) (fits : ∀ x ∈ s, tokenFits x = true)
    (fits' : ∀ x ∈ t, tokenFits x = true) (same : blockBytes before s = blockBytes before' t) :
    before = before' ∧ s = t := by
  have bytes : (s.flatMap (bytesOf 4)).length = (t.flatMap (bytesOf 4)).length := by
    simp only [List.length_flatMap, length_bytesOf, List.map_const', length]
  obtain ⟨former, tokens⟩ := List.append_inj' same bytes
  refine ⟨?_, bytesOf_tokens_inj length fits fits' tokens⟩
  split_ifs at former with first first' first'
  · rw [first, first']
  · exact absurd (congrArg List.length former) (by rw [length_bytesOf]; decide)
  · exact absurd (congrArg List.length former) (by rw [length_bytesOf]; decide)
  · exact bytesOf_hash_inj hashed hashed' first first' former

/-- The full blocks at the beginning of a list of tokens. -/
def wholeBlocks (size : Nat) (tokens : List Int) : List (List Int) :=
  (List.range (tokens.length / size)).map (blockOf size tokens)

/-- The bytes that are digested when the full blocks are hashed one after the other. -/
def digested (size : Nat) (tokens : List Int) : List (List UInt8) :=
  (List.range (tokens.length / size)).map fun i =>
    blockBytes (chainHash size tokens i) (blockOf size tokens i)

theorem blockHashes_chainHash {tokens : List Int} (fits : ∀ x ∈ tokens, tokenFits x = true)
    (start count : Nat) :
    blockHashes (chainHash size tokens start)
        ((List.range' start count).map (blockOf size tokens)) =
      .ok ((List.range' start count).map fun i => chainHash size tokens (i + 1)) := by
  induction count generalizing start with
  | zero => rfl
  | succ count ih =>
      rw [List.range'_succ, List.map_cons, List.map_cons, blockHashes, blockHash_chainHash fits]
      simp only [bind, Except.bind, pure, Except.pure, ih]

theorem blockHashes_wholeBlocks {tokens : List Int} (fits : ∀ x ∈ tokens, tokenFits x = true) :
    blockHashes noHash (wholeBlocks size tokens) =
      .ok ((List.range (tokens.length / size)).map fun i => chainHash size tokens (i + 1)) := by
  rw [wholeBlocks, List.range_eq_range']
  exact blockHashes_chainHash fits 0 _

theorem chainHash_succ_inj {i j : Nat} (positive : 0 < size) (fits : ∀ x ∈ s, tokenFits x = true)
    (fits' : ∀ x ∈ t, tokenFits x = true)
    (apart : ∀ x ∈ digested size s ++ digested size t, ∀ y ∈ digested size s ++ digested size t,
      xxh64 x = xxh64 y → x = y)
    (full : i < s.length / size) (full' : j < t.length / size)
    (same : chainHash size s (i + 1) = chainHash size t (j + 1)) :
    chainHash size s i = chainHash size t j ∧ blockOf size s i = blockOf size t j := by
  have occurs : ∀ {u : List Int} {k : Nat}, k < u.length / size →
      blockBytes (chainHash size u k) (blockOf size u k) ∈ digested size u := fun full =>
    List.mem_map_of_mem (List.mem_range.mpr full)
  have length : ∀ {u : List Int} {k : Nat}, k < u.length / size →
      (blockOf size u k).length = size := fun full =>
    (length_blockOf_eq_iff positive).mpr ((Nat.le_div_iff_mul_le positive).mp full)
  have digests := UInt64.toNat_inj.mp (Int.ofNat.inj same)
  have bytes := apart _ (List.mem_append_left _ (occurs full)) _
    (List.mem_append_right _ (occurs full')) digests
  exact blockBytes_inj ((length full).trans (length full').symm) (hashFits_chainHash _ _ _)
    (hashFits_chainHash _ _ _) (fun x member => fits x (mem_of_mem_blockOf member))
    (fun x member => fits' x (mem_of_mem_blockOf member)) bytes

/-- The full blocks of tokens that fit are hashed, and if the digest tells apart the bytes that
    occur, two blocks have the same hash exactly if they stand at the same place and the tokens up
    to their ends are the same. -/
theorem blockHashes_eq_iff (positive : 0 < size) (fits : ∀ x ∈ s, tokenFits x = true)
    (fits' : ∀ x ∈ t, tokenFits x = true)
    (apart : ∀ x ∈ digested size s ++ digested size t, ∀ y ∈ digested size s ++ digested size t,
      xxh64 x = xxh64 y → x = y) :
    ∃ hashes hashes' : List Int,
      blockHashes noHash (wholeBlocks size s) = .ok hashes ∧
      blockHashes noHash (wholeBlocks size t) = .ok hashes' ∧
      hashes.length = s.length / size ∧ hashes'.length = t.length / size ∧
      ∀ (i j : Nat) (inside : i < hashes.length) (inside' : j < hashes'.length),
        hashes[i] = hashes'[j] ↔
          i = j ∧ s.take ((i + 1) * size) = t.take ((i + 1) * size) := by
  refine ⟨_, _, blockHashes_wholeBlocks fits, blockHashes_wholeBlocks fits', ?_, ?_, ?_⟩
  · simp
  · simp
  intro i j inside inside'
  simp only [List.length_map, List.length_range] at inside inside'
  simp only [List.getElem_map, List.getElem_range]
  have room : ∀ {u : List Int} {k : Nat}, k < u.length / size → (k + 1) * size ≤ u.length :=
    fun full => (Nat.le_div_iff_mul_le positive).mp full
  constructor
  · intro same
    obtain ⟨rfl, tokens⟩ := chainHash_unique (fun k few k' few' =>
      chainHash_succ_inj positive fits fits' apart (Nat.lt_of_le_of_lt few inside)
        (Nat.lt_of_le_of_lt few' inside')) same
    exact ⟨rfl, tokens⟩
  · rintro ⟨rfl, tokens⟩
    exact chainHash_congr (room inside) (room inside') tokens

/-- Two lists that part in their third block. -/
theorem blockHashes_eq_iff_parted :
    ∃ hashes hashes' : List Int,
      blockHashes noHash (wholeBlocks 2 [-1, 7, 3, 4, 5, 6]) = .ok hashes ∧
      blockHashes noHash (wholeBlocks 2 [-1, 7, 3, 4, 5, 5, 9]) = .ok hashes' ∧
      hashes.length = 3 ∧ hashes'.length = 3 ∧
      ∀ (i j : Nat) (inside : i < hashes.length) (inside' : j < hashes'.length),
        hashes[i] = hashes'[j] ↔ i = j ∧
          [-1, 7, 3, 4, 5, 6].take ((i + 1) * 2) = [-1, 7, 3, 4, 5, 5, (9 : Int)].take ((i + 1) * 2) :=
  blockHashes_eq_iff (by decide) (by decide) (by decide) (by decide +kernel)

end PagedServing
