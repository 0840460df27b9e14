import Mathlib.Data.List.Nodup
import PagedServing.Batch.Basic

/-! # What the memory holds

A slot of a pool holds the keys and values of one token, which depend on all tokens up to
that one. So those tokens tell what the slot holds. A batch changes the memory in this
order: blocks are copied to the host, from the host and on the device, and then every token
of the batch is written to its slot.
-/

namespace PagedServing

/-- For every slot of the two pools, the tokens up to the one that it holds. -/
structure Memory where
  device : Int → List Int
  host : Int → List Int

namespace Batch

/-- The sequence of every token of a batch, as the bounds tell it. -/
def owners (b : Batch) : List SeqId :=
  (b.sequences.zip b.spans).flatMap fun e => List.replicate e.2.toNat e.1

/-- The slots that the tokens of a batch are written to, and what is written. -/
def writes (b : Batch) (tokens : SeqId → List Int) : List (Int × List Int) :=
  List.zipWith (fun slot (e : SeqId × Int) => (slot, (tokens e.1).take (e.2 + 1).toNat))
    b.slots (b.owners.zip b.positions)

end Batch

namespace Memory

/-- Copy one block of `source` over one block of `target`. -/
def copyBlock (size : Nat) (source target : Int → List Int) (pair : Int × Int) :
    Int → List Int := fun slot =>
  if slot / size = pair.2 then source (pair.1 * size + slot % size) else target slot

/-- Copy blocks one after the other. -/
def copyBlocks (size : Nat) (source target : Int → List Int) (pairs : List (Int × Int)) :
    Int → List Int :=
  pairs.foldl (copyBlock size source) target

/-- Copy device blocks to the host. -/
def swapOut (size : Nat) (m : Memory) (pairs : List (Int × Int)) : Memory :=
  { m with host := copyBlocks size m.device m.host pairs }

/-- Copy host blocks to the device. -/
def swapIn (size : Nat) (m : Memory) (pairs : List (Int × Int)) : Memory :=
  { m with device := copyBlocks size m.host m.device pairs }

/-- Copy one device block to another. -/
def copy (size : Nat) (m : Memory) (pair : Int × Int) : Memory :=
  { m with device := copyBlock size m.device m.device pair }

/-- The memory after the block operations of a batch. -/
def moved (m : Memory) (b : Batch) : Memory :=
  b.copies.foldl (copy b.blockSize)
    (swapIn b.blockSize (swapOut b.blockSize m b.swapOut.entries) b.swapIn.entries)

/-- Write one slot of the device. -/
def write (m : Memory) (entry : Int × List Int) : Memory :=
  { m with device := fun slot => if slot = entry.1 then entry.2 else m.device slot }

/-- The memory after a batch was executed, where `tokens` are those of its sequences. -/
def executed (m : Memory) (b : Batch) (tokens : SeqId → List Int) : Memory :=
  (b.writes tokens).foldl write (m.moved b)

/-- The slots of the block `b` hold block `i` of a list of tokens, as far as the first
    `count` tokens go. -/
def Holds (size : Nat) (slots : Int → List Int) (b : Int) (tokens : List Int) (i : Nat)
    (count : Int) : Prop :=
  ∀ k < size, ((i * size + k : Nat) : Int) < count →
    slots (b * size + k) = tokens.take (i * size + k + 1)

section Places

variable {size k k' : Nat} {b b' : Int}

theorem slot_div (inside : k < size) (b : Int) : (b * size + k) / size = b := by
  have positive : (0 : Int) < size := by omega
  rw [Int.add_comm, Int.add_mul_ediv_right _ _ (by omega),
    Int.ediv_eq_zero_of_lt (by omega) (by omega), Int.zero_add]

theorem slot_mod (inside : k < size) (b : Int) : (b * size + k) % size = k := by
  rw [Int.add_comm, Int.add_mul_emod_self_right]
  exact Int.emod_eq_of_lt (by omega) (by omega)

theorem slot_inj (inside : k < size) (inside' : k' < size)
    (same : b * size + k = b' * size + k') : b = b' ∧ k = k' := by
  have blocks := congrArg (· / (size : Int)) same
  have places := congrArg (· % (size : Int)) same
  simp only [slot_div inside, slot_div inside', slot_mod inside, slot_mod inside'] at blocks places
  exact ⟨blocks, by omega⟩

end Places

section Copies

variable {size k : Nat} {source target : Int → List Int} {pairs : List (Int × Int)} {g h b : Int}

theorem copyBlock_self (inside : k < size) :
    copyBlock size source target (g, h) (h * size + k) = source (g * size + k) := by
  simp [copyBlock, slot_div inside, slot_mod inside]

theorem copyBlock_other (inside : k < size) (different : b ≠ h) :
    copyBlock size source target (g, h) (b * size + k) = target (b * size + k) := by
  simp [copyBlock, slot_div inside, different]

theorem copyBlocks_append (more : List (Int × Int)) :
    copyBlocks size source target (pairs ++ more) =
      copyBlocks size source (copyBlocks size source target pairs) more :=
  List.foldl_append

/-- A block that nothing is copied to stays as it is. -/
theorem copyBlocks_other (inside : k < size) (outside : b ∉ pairs.map (·.2)) :
    copyBlocks size source target pairs (b * size + k) = target (b * size + k) := by
  induction pairs generalizing target with
  | nil => rfl
  | cons pair rest ih =>
      obtain ⟨different, outside⟩ := not_or.mp (mt List.mem_cons.mpr outside)
      exact (ih outside).trans (copyBlock_other inside different)

theorem copyBlocks_of_mem (inside : k < size) (distinct : (pairs.map (·.2)).Nodup)
    (member : (g, h) ∈ pairs) :
    copyBlocks size source target pairs (h * size + k) = source (g * size + k) := by
  induction pairs generalizing target with
  | nil => cases member
  | cons pair rest ih =>
      obtain ⟨absent, distinct⟩ := List.nodup_cons.mp distinct
      rcases List.mem_cons.mp member with rfl | later
      · exact (copyBlocks_other inside absent).trans (copyBlock_self inside)
      · exact ih distinct later

theorem copy_comm {size : Nat} (positive : 0 < size) (m : Memory) {first second : Int × Int}
    (targets : first.2 ≠ second.2) (unread : first.2 ≠ second.1) (unread' : second.2 ≠ first.1) :
    copy size (copy size m first) second = copy size (copy size m second) first := by
  have place : ∀ (b slot : Int), (b * size + slot % size) / size = b := by
    intro b slot
    have inside := Int.emod_lt_of_pos slot (Int.ofNat_lt.mpr positive)
    have natural := Int.emod_nonneg slot (Int.ofNat_ne_zero.mpr (Nat.ne_of_gt positive))
    rw [Int.mul_comm, Int.mul_add_ediv_left _ _ (by omega), Int.ediv_eq_zero_of_lt natural inside,
      Int.add_zero]
  simp only [copy, Memory.mk.injEq, and_true]
  funext slot
  simp only [copyBlock, place]
  by_cases own : slot / size = first.2
  · simp [own, targets, Ne.symm unread']
  · by_cases own' : slot / size = second.2
    · simp [own', Ne.symm targets, Ne.symm unread]
    · simp [own, own']

theorem foldl_copy_perm {size : Nat} (positive : 0 < size) (distinct : (pairs.map (·.2)).Nodup)
    (unread : ∀ pair ∈ pairs, ∀ other ∈ pairs, pair.2 ≠ other.1) {others : List (Int × Int)}
    (perm : others.Perm pairs) (m : Memory) :
    others.foldl (copy size) m = pairs.foldl (copy size) m := by
  refine perm.foldl_eq' (fun first member second member' m => ?_) m
  have among := perm.mem_iff.mp member
  have among' := perm.mem_iff.mp member'
  by_cases same : first = second
  · rw [same]
  · refine copy_comm positive m (fun targets => ?_) (unread _ among _ among')
      (unread _ among' _ among)
    exact same (List.inj_on_of_nodup_map distinct among among' targets)

end Copies

theorem take_eq_of_le {tokens tokens' : List Int} {n n' : Nat} (same : tokens.take n = tokens'.take n)
    (fewer : n' ≤ n) : tokens.take n' = tokens'.take n' := by
  rw [← Nat.min_eq_left fewer, ← List.take_take, ← List.take_take, same]

namespace Holds

variable {size i : Nat} {slots slots' : Int → List Int} {b : Int} {tokens tokens' : List Int}
  {count count' : Int}

theorem mono (holds : Holds size slots b tokens i count) (less : count' ≤ count) :
    Holds size slots b tokens i count' :=
  fun k inside before => holds k inside (by omega)

theorem congr (holds : Holds size slots b tokens i count) {n : Nat} (few : count ≤ n)
    (same : tokens'.take n = tokens.take n) : Holds size slots b tokens' i count := by
  intro k inside before
  rw [holds k inside before]
  exact take_eq_of_le same.symm (by omega)

/-- Slots that are filled the same way hold the same. -/
theorem transport (holds : Holds size slots b tokens i count) {b' : Int}
    (same : ∀ k < size, slots' (b' * size + k) = slots (b * size + k)) :
    Holds size slots' b' tokens i count :=
  fun k inside before => (same k inside).trans (holds k inside before)

end Holds

end Memory

end PagedServing
