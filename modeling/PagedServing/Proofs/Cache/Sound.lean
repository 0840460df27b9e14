import Mathlib.Algebra.Order.BigOperators.Group.Finset
import Mathlib.Data.List.NodupEquivFin
import PagedServing.Cache.Basic
import PagedServing.Proofs.Cache.Chain
import PagedServing.Proofs.Pool.Holders
import PagedServing.Proofs.Sequence

/-! # Sound caches

A cache is sound if its sequences are filed under their numbers, the references of both
pools agree with the block tables, and the hash of a published block stands for the tokens
of whoever holds it. Two caches are compared by the one sequence that was replaced between
them.
-/

namespace PagedServing.Cache

/-- A sequence was constructed under the number. -/
def Knows (c : Cache) (id : SeqId) : Prop :=
  id < c.sequences.nextId

instance (c : Cache) (id : SeqId) : Decidable (c.Knows id) :=
  inferInstanceAs (Decidable (id < c.sequences.nextId))

/-- The device blocks of a sequence. -/
def deviceTable (c : Cache) (id : SeqId) : List Int :=
  if c.isSwapped id then [] else (c.sequence id).table

/-- The host blocks of a sequence. -/
def hostTable (c : Cache) (id : SeqId) : List Int :=
  if c.isSwapped id then (c.sequence id).table else []

/-- How often a block occurs in the tables of the first `count` sequences. -/
def occurrences (count : Nat) (table : SeqId → List Int) (b : Int) : Nat :=
  ∑ id ∈ Finset.range count, (table id).count b

/-- How often a device block occurs in block tables. -/
def deviceHolders (c : Cache) : Int → Nat :=
  occurrences c.sequences.nextId c.deviceTable

/-- How often a host block occurs in block tables. -/
def hostHolders (c : Cache) : Int → Nat :=
  occurrences c.sequences.nextId c.hostTable

/-- The tokens can be hashed, if blocks are shared. -/
def Hashes (c : Cache) (tokens : List Int) : Prop :=
  c.sharing = true → ∀ t ∈ tokens, tokenFits t = true

instance (c : Cache) (tokens : List Int) : Decidable (c.Hashes tokens) :=
  inferInstanceAs (Decidable (_ → _))

/-- Every sequence stands under its own number, in blocks of one size and with tokens that
    can be hashed, and only known sequences are swapped out. -/
structure Filed (c : Cache) : Prop where
  numbered : ∀ id, c.Knows id → (c.sequence id).id = id
  sized : ∀ id, c.Knows id → (c.sequence id).blockSize = c.blockSize
  fits : ∀ id, c.Knows id → c.Hashes (c.sequence id).tokens
  swapped_nodup : c.swapped.Nodup
  swapped_known : ∀ id ∈ c.swapped, c.Knows id
  swapped_host : ∀ id ∈ c.swapped, c.host.isSome

/-- The references of both pools agree with the block tables. Host blocks are not shared. -/
structure Balanced (c : Cache) : Prop where
  device : c.device.Balanced c.deviceHolders
  host : ∀ p, c.host = some p → p.Balanced c.hostHolders
  host_single : ∀ b, c.hostHolders b ≤ 1

/-- A block that is found under a hash carries it, a block without a hash is not shared, and
    the hash of a block stands for the tokens of every sequence that holds it. -/
structure Labelled (c : Cache) : Prop where
  coherent : ∀ h b, c.device.registry.get? h = some b →
    c.device.Has b ∧ (c.device.entry b).hash = h ∧ h ≠ noHash
  unshared : ∀ b, c.device.Has b → (c.device.entry b).hash = noHash → c.deviceHolders b ≤ 1
  chained : ∀ id i b, (c.deviceTable id)[i]? = some b → (c.device.entry b).hash ≠ noHash →
    (i + 1) * c.blockSize ≤ (c.sequence id).length ∧
    (c.device.entry b).hash = chainHash c.blockSize (c.sequence id).tokens (i + 1)
  plain : c.sharing = false → ∀ b, c.device.Has b → (c.device.entry b).hash = noHash

theorem Hashes.congr {c c' : Cache} {tokens : List Int} (hashes : c.Hashes tokens)
    (sharing : c'.sharing = c.sharing) : c'.Hashes tokens :=
  fun on => hashes (sharing.symm.trans on)

/-- All that the operations of a cache rely on. -/
structure Sound (c : Cache) : Prop where
  filed : c.Filed
  balanced : c.Balanced
  labelled : c.Labelled

/-- The second cache has `q` for the sequence `id`, and the other sequences as they were. -/
structure Replaced (c c' : Cache) (id : SeqId) (q : Sequence) : Prop where
  knows : c.Knows id
  self : c'.sequence id = q
  others : ∀ other, other ≠ id → c'.sequence other = c.sequence other
  count : c'.sequences.nextId = c.sequences.nextId
  blockSize : c'.blockSize = c.blockSize
  sharing : c'.sharing = c.sharing

variable {c c' c'' : Cache} {id : SeqId} {q q' : Sequence}

theorem replaced_of_update (knows : c.Knows id) {f : Sequence → Sequence}
    (sequences : c'.sequences = c.sequences.update id f) (blockSize : c'.blockSize = c.blockSize)
    (sharing : c'.sharing = c.sharing) : c.Replaced c' id (f (c.sequence id)) where
  knows := knows
  self := by
    unfold sequence
    rw [sequences, Store.get_update_self f knows]
  others other different := by
    unfold sequence
    rw [sequences, Store.get_update_of_ne f different]
  count := by simp [sequences, Store.nextId, Store.update]
  blockSize := blockSize
  sharing := sharing

theorem replaced_edit (knows : c.Knows id) (f : Sequence → Sequence) :
    c.Replaced { c with sequences := c.sequences.update id f } id (f (c.sequence id)) :=
  replaced_of_update knows rfl rfl rfl

/-- An edit may come with a change of the pools. -/
theorem replaced_with (knows : c.Knows id) (device : Pool) (host : Option Pool)
    (swapped : List SeqId) (f : Sequence → Sequence) :
    c.Replaced { c with device, host, swapped, sequences := c.sequences.update id f } id
      (f (c.sequence id)) :=
  replaced_of_update knows rfl rfl rfl

namespace Replaced

theorem refl (knows : c.Knows id) : c.Replaced c id (c.sequence id) :=
  ⟨knows, rfl, fun _ _ => rfl, rfl, rfl, rfl⟩

theorem trans (first : c.Replaced c' id q) (second : c'.Replaced c'' id q') :
    c.Replaced c'' id q' where
  knows := first.knows
  self := second.self
  others other different := (second.others other different).trans (first.others other different)
  count := second.count.trans first.count
  blockSize := second.blockSize.trans first.blockSize
  sharing := second.sharing.trans first.sharing

theorem knows_iff (replaced : c.Replaced c' id q) (other : SeqId) :
    c'.Knows other ↔ c.Knows other := by
  simp only [Knows, replaced.count]

end Replaced

theorem occurrences_split {count : Nat} (table : SeqId → List Int) (inside : id < count) (b : Int) :
    occurrences count table b =
      (table id).count b + ∑ other ∈ (Finset.range count).erase id, (table other).count b :=
  (Finset.add_sum_erase _ _ (Finset.mem_range.mpr inside)).symm

theorem occurrences_replace {count : Nat} {table table' : SeqId → List Int} (inside : id < count)
    (others : ∀ other, other ≠ id → table' other = table other) (b : Int) :
    occurrences count table' b + (table id).count b =
      occurrences count table b + (table' id).count b := by
  have rest : ∑ other ∈ (Finset.range count).erase id, (table' other).count b =
      ∑ other ∈ (Finset.range count).erase id, (table other).count b :=
    Finset.sum_congr rfl fun other elsewhere => by rw [others other (Finset.ne_of_mem_erase elsewhere)]
  rw [occurrences_split table inside, occurrences_split table' inside, rest]
  omega

theorem count_le_occurrences {count : Nat} {table : SeqId → List Int} (inside : id < count) (b : Int) :
    (table id).count b ≤ occurrences count table b := by
  rw [occurrences_split table inside]
  exact Nat.le_add_right _ _

theorem occurrences_eq_count_iff {count : Nat} (table : SeqId → List Int) (inside : id < count)
    (b : Int) : occurrences count table b = (table id).count b ↔
      ∀ other < count, other ≠ id → b ∉ table other := by
  rw [occurrences_split table inside, Nat.add_eq_left, Finset.sum_eq_zero_iff]
  simp only [Finset.mem_erase, Finset.mem_range, List.count_eq_zero]
  exact ⟨fun none other known different => none other ⟨different, known⟩,
    fun none other ⟨different, known⟩ => none other known different⟩

theorem count_le_deviceHolders (knows : c.Knows id) (b : Int) :
    (c.deviceTable id).count b ≤ c.deviceHolders b :=
  count_le_occurrences knows b

theorem count_le_hostHolders (knows : c.Knows id) (b : Int) :
    (c.hostTable id).count b ≤ c.hostHolders b :=
  count_le_occurrences knows b

/-- A block that occurs once stands in one place. -/
theorem place_unique {count : Nat} {table : SeqId → List Int} {other : SeqId} {i j : Nat} {b : Int}
    (single : occurrences count table b ≤ 1) (inside : id < count) (inside' : other < count)
    (place : (table id)[i]? = some b) (place' : (table other)[j]? = some b) :
    other = id ∧ j = i := by
  have here := List.count_pos_iff.mpr (List.mem_of_getElem? place)
  have there := List.count_pos_iff.mpr (List.mem_of_getElem? place')
  rw [occurrences_split table inside] at single
  by_cases same : other = id
  · subst same
    refine ⟨rfl, ?_⟩
    by_contra different
    have twice : (table other).Duplicate b := by
      obtain ⟨iIn, iAt⟩ := List.getElem?_eq_some_iff.mp place
      obtain ⟨jIn, jAt⟩ := List.getElem?_eq_some_iff.mp place'
      rw [List.duplicate_iff_exists_distinct_get]
      rcases Nat.lt_or_gt_of_ne different with less | more
      · exact ⟨⟨j, jIn⟩, ⟨i, iIn⟩, less, jAt.symm, iAt.symm⟩
      · exact ⟨⟨i, iIn⟩, ⟨j, jIn⟩, more, iAt.symm, jAt.symm⟩
    have := List.duplicate_iff_two_le_count.mp twice
    omega
  · have share : (table other).count b ≤
        ∑ other ∈ (Finset.range count).erase id, (table other).count b :=
      Finset.single_le_sum (f := fun other => (table other).count b) (fun _ _ => Nat.zero_le _)
        (Finset.mem_erase.mpr ⟨same, Finset.mem_range.mpr inside'⟩)
    omega

theorem occurrences_congr {count : Nat} {table table' : SeqId → List Int}
    (same : ∀ id < count, table' id = table id) (b : Int) :
    occurrences count table' b = occurrences count table b :=
  Finset.sum_congr rfl fun id member => by rw [same id (Finset.mem_range.mp member)]

/-- The block tables of the sequences for which `member` holds, one after the other. -/
def places (c : Cache) (member : SeqId → Bool) : List Int :=
  ((List.range c.sequences.nextId).filter member).flatMap fun id => (c.sequence id).table

theorem count_places (c : Cache) (member : SeqId → Bool) (b : Int) :
    (c.places member).count b = occurrences c.sequences.nextId
      (fun id => if member id then (c.sequence id).table else []) b := by
  unfold places occurrences
  induction c.sequences.nextId with
  | zero => rfl
  | succ count ih =>
      rw [List.range_succ, List.filter_append, List.flatMap_append, List.count_append, ih,
        Finset.sum_range_succ]
      by_cases chosen : member count = true <;> simp [chosen]

end PagedServing.Cache
