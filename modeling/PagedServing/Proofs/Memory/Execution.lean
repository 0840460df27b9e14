import PagedServing.Proofs.Memory.Backing
import PagedServing.Proofs.Scheduler.Schedule

/-! # What an executed batch writes

A batch writes every token that its sequences have not computed. A block that several
sequences hold stands for the same tokens in all of them, so what one of them writes to it
is what the others expect there.
-/

namespace PagedServing

open Batch (Laid pending slotOf)
open Memory (Holds)

namespace Memory

variable {m : Memory} {entries : List (Int × List Int)} {slot : Int} {value : List Int}

theorem foldl_write_host (m : Memory) (entries : List (Int × List Int)) :
    (entries.foldl write m).host = m.host := by
  induction entries generalizing m with
  | nil => rfl
  | cons e rest ih => exact ih (m.write e)

theorem foldl_write_device (agree : ∀ e ∈ entries, e.1 = slot → e.2 = value)
    (either : m.device slot = value ∨ ∃ e ∈ entries, e.1 = slot) :
    (entries.foldl write m).device slot = value := by
  induction entries generalizing m with
  | nil => exact either.resolve_right (by simp)
  | cons e rest ih =>
      refine ih (fun e' member => agree e' (List.mem_cons_of_mem _ member)) ?_
      by_cases here : slot = e.1
      · left
        simp [write, here, agree e List.mem_cons_self here.symm]
      · rcases either with before | ⟨e', member, there⟩
        · left
          simp [write, here, before]
        · rcases List.mem_cons.mp member with rfl | later
          · exact absurd there.symm here
          · exact Or.inr ⟨e', later, there⟩

end Memory

namespace Batch

theorem zipWith_pieces {α : Type} {f : Int → SeqId × Int → α} {n : SeqId → Nat}
    {slots positions : SeqId → List Int} (ids : List SeqId)
    (count : ∀ id ∈ ids, (slots id).length = n id)
    (count' : ∀ id ∈ ids, (positions id).length = n id) :
    List.zipWith f (ids.flatMap slots)
        ((ids.flatMap fun id => List.replicate (n id) id).zip (ids.flatMap positions)) =
      ids.flatMap fun id =>
        List.zipWith f (slots id) ((List.replicate (n id) id).zip (positions id)) := by
  induction ids with
  | nil => rfl
  | cons id rest ih =>
      have here := count id List.mem_cons_self
      have here' := count' id List.mem_cons_self
      have others := ih (fun id member => count id (List.mem_cons_of_mem _ member))
        fun id member => count' id (List.mem_cons_of_mem _ member)
      simp only [List.flatMap_cons]
      rw [List.zip_append (by simp [here']), List.zipWith_append (by simp [here, here']), others]

theorem owners_eq {b : Batch} {ids : List SeqId} {c : Cache} (laid : Laid b ids c) :
    b.owners = ids.flatMap fun id => List.replicate (c.sequence id).uncomputed.toNat id := by
  unfold owners
  rw [laid.sequences, laid.spans]
  clear laid
  induction ids with
  | nil => rfl
  | cons id rest ih => simp [ih]

/-- Every token that is not computed is written to its own slot. -/
theorem writes_eq {b : Batch} {ids : List SeqId} {c : Cache} (laid : Laid b ids c)
    (progressed : ∀ id ∈ ids, Cache.Progressed (c.sequence id)) (tokens : SeqId → List Int) :
    b.writes tokens = ids.flatMap fun id => (pending (c.sequence id)).map fun p =>
      (slotOf (c.sequence id) p, (tokens id).take (p + 1)) := by
  have count : ∀ id ∈ ids, (pending (c.sequence id)).length =
      (c.sequence id).uncomputed.toNat := by
    intro id member
    have := (progressed id member).natural
    simp only [pending, List.length_map, List.length_range, Sequence.uncomputed]
    omega
  unfold writes
  rw [owners_eq laid, laid.slots, laid.positions, zipWith_pieces ids]
  · refine List.flatMap_congr fun id member => ?_
    rw [← count id member]
    generalize pending (c.sequence id) = positions
    induction positions with
    | nil => rfl
    | cons p rest ih =>
        have last : ((p : Int) + 1).toNat = p + 1 := by omega
        simp only [List.map_cons, List.length_cons, List.replicate_succ, List.zip_cons_cons,
          List.zipWith_cons_cons, ih, Int.ofNat_eq_natCast, last]
  · intro id member
    rw [List.length_map, count id member]
  · intro id member
    rw [List.length_map, count id member]

end Batch

namespace Cache

variable {c c' : Cache} {m : Memory} {id id' : SeqId} {i i' : Nat} {b : Int}

theorem Sound.place_agrees (sound : c.Sound) (distinct : c.Distinct)
    (place : (c.deviceTable id)[i]? = some b) (place' : (c.deviceTable id')[i']? = some b) :
    i = i' ∧ (c.sequence id).tokens.take ((i + 1) * c.blockSize) =
      (c.sequence id').tokens.take ((i' + 1) * c.blockSize) := by
  have knows := knows_of_place place
  have knows' := knows_of_place place'
  have has := sound.balanced.has_of_mem (List.mem_of_getElem? place)
  by_cases plain : (c.device.entry b).hash = noHash
  · obtain ⟨rfl, rfl⟩ := sound.labelled.plain_unique sound.balanced.device plain place place'
    exact ⟨rfl, rfl⟩
  · obtain ⟨inside, hash⟩ := sound.labelled.chained id i b place plain
    obtain ⟨inside', hash'⟩ := sound.labelled.chained id' i' b place' plain
    have sharing : c.sharing = true := by
      by_contra off
      exact plain (sound.labelled.plain (by simpa using off) b has)
    exact distinct.tokens_unique sharing ⟨knows, inside⟩ ⟨knows', inside'⟩ (hash.symm.trans hash')

/-- Every sequence of a batch has a device slot for each of its tokens. -/
structure Fitted (c : Cache) (b : Batch) : Prop where
  laid : Laid b b.sequences c
  knows : ∀ id ∈ b.sequences, c.Knows id
  device : ∀ id ∈ b.sequences, c.isSwapped id = false
  progressed : ∀ id ∈ b.sequences, Progressed (c.sequence id)
  covered : ∀ id ∈ b.sequences,
    (c.sequence id).length ≤ (c.sequence id).table.length * c.blockSize

/-- All tokens of a sequence are in the memory of the device. -/
def Written (c : Cache) (m : Memory) (id : SeqId) : Prop :=
  ∀ (i : Nat) b, (c.sequence id).table[i]? = some b →
    Holds c.blockSize m.device b (c.sequence id).tokens i (c.sequence id).length

section Batches

variable {batch : Batch} (sound : c.Sound) (fitted : c.Fitted batch)
include sound fitted

/-- What is written goes to a block of a sequence of the batch, and is what that sequence
    has there. -/
theorem Fitted.write_place {entry : Int × List Int} {k : Nat} (inside : k < c.blockSize)
    (member : entry ∈ batch.writes fun id => (c.sequence id).tokens)
    (slot : entry.1 = b * c.blockSize + k) :
    ∃ id ∈ batch.sequences, ∃ i, (c.deviceTable id)[i]? = some b ∧
      entry.2 = (c.sequence id).tokens.take (i * c.blockSize + k + 1) := by
  rw [Batch.writes_eq fitted.laid fitted.progressed, List.mem_flatMap] at member
  obtain ⟨id, among, member⟩ := member
  obtain ⟨p, unprocessed, rfl⟩ := List.mem_map.mp member
  have size := sound.filed.sized id (fitted.knows id among)
  have positive := c.blockSize_pos
  obtain ⟨-, before⟩ := Batch.mem_pending.mp unprocessed
  have covered : p / c.blockSize < (c.sequence id).table.length :=
    (Nat.div_lt_iff_lt_mul positive).mpr (before.trans_le (fitted.covered id among))
  have found : (c.sequence id).table[p / c.blockSize]? =
      some ((c.sequence id).table.getD (p / c.blockSize) 0) := by
    rw [List.getD_eq_getElem?_getD, List.getElem?_eq_getElem covered]
    rfl
  simp only [slotOf, size] at slot
  obtain ⟨block, rest⟩ := Memory.slot_inj (Nat.mod_lt p positive) inside slot
  rw [block] at found
  refine ⟨id, among, p / c.blockSize, ?_, ?_⟩
  · exact deviceTable_place (fitted.device id among) found
  · rw [← rest, Nat.div_add_mod']

theorem Fitted.write_agrees (distinct : c.Distinct) {entry : Int × List Int} {k : Nat}
    (inside : k < c.blockSize) (member : entry ∈ batch.writes fun id => (c.sequence id).tokens)
    (slot : entry.1 = b * c.blockSize + k) (place : (c.deviceTable id)[i]? = some b) :
    entry.2 = (c.sequence id).tokens.take (i * c.blockSize + k + 1) := by
  obtain ⟨writer, -, j, place', value⟩ := fitted.write_place sound inside member slot
  obtain ⟨rfl, tokens⟩ := sound.place_agrees distinct place' place
  have short : j * c.blockSize + k + 1 ≤ (j + 1) * c.blockSize := by
    rw [Nat.add_mul, Nat.one_mul]
    omega
  rw [value]
  exact Memory.take_eq_of_le tokens short

theorem Fitted.written (member : id ∈ batch.sequences) {k : Nat} (inside : k < c.blockSize)
    (place : (c.sequence id).table[i]? = some b)
    (late : (c.sequence id).computed ≤ (i * c.blockSize + k : Nat))
    (before : i * c.blockSize + k < (c.sequence id).length) :
    ∃ entry ∈ batch.writes fun id => (c.sequence id).tokens,
      entry.1 = b * c.blockSize + k := by
  have size := sound.filed.sized id (fitted.knows id member)
  have positive := c.blockSize_pos
  have block : (i * c.blockSize + k) / c.blockSize = i := by
    rw [Nat.add_comm, Nat.add_mul_div_right _ _ positive, Nat.div_eq_of_lt inside, Nat.zero_add]
  have rest : (i * c.blockSize + k) % c.blockSize = k := by
    rw [Nat.add_comm, Nat.add_mul_mod_self_right, Nat.mod_eq_of_lt inside]
  rw [Batch.writes_eq fitted.laid fitted.progressed]
  refine ⟨_, List.mem_flatMap.mpr ⟨id, member, List.mem_map_of_mem (a := i * c.blockSize + k)
    (Batch.mem_pending.mpr ⟨by omega, before⟩)⟩, ?_⟩
  simp only [slotOf, size, block, rest, List.getD_eq_getElem?_getD, place, Option.getD_some]

theorem Stored.executed (stored : c.Stored m id) (distinct : c.Distinct) :
    c.Stored ((batch.writes fun id => (c.sequence id).tokens).foldl Memory.write m) id := by
  intro i b place
  have stored := stored i b place
  unfold slotsOf at stored ⊢
  rw [Memory.foldl_write_host]
  cases device : c.isSwapped id with
  | true => simpa [device] using stored
  | false =>
      simp only [device, Bool.false_eq_true, if_false] at stored ⊢
      intro k inside before
      refine Memory.foldl_write_device (fun e member slot => ?_) (Or.inl (stored k inside before))
      exact fitted.write_agrees sound distinct inside member slot (deviceTable_place device place)

theorem Stands.executed {h : Int} (stands : c.Stands m h b) (distinct : c.Distinct)
    (sharing : c.sharing = true) (found : c.device.registry.get? h = some b) :
    c.Stands ((batch.writes fun id => (c.sequence id).tokens).foldl Memory.write m) h b := by
  obtain ⟨id, i, full, hash, holds⟩ := stands
  obtain ⟨has, label, real⟩ := sound.labelled.coherent h b found
  refine ⟨id, i, full, hash, fun k inside before => ?_⟩
  refine Memory.foldl_write_device (fun e member slot => ?_) (Or.inl (holds k inside before))
  obtain ⟨writer, among, j, place, value⟩ := fitted.write_place sound inside member slot
  obtain ⟨full', hash'⟩ := sound.labelled.chained writer j b place (label ▸ real)
  have same : c.hashOf writer (j + 1) = c.hashOf id (i + 1) := by
    rw [hash, ← label]
    exact hash'.symm
  obtain ⟨rfl, tokens⟩ := distinct.tokens_unique sharing ⟨fitted.knows writer among, full'⟩ full same
  have short : j * c.blockSize + k + 1 ≤ (j + 1) * c.blockSize := by
    rw [Nat.add_mul, Nat.one_mul]
    omega
  rw [value]
  exact Memory.take_eq_of_le tokens short

theorem Stored.written (stored : c.Stored m id) (distinct : c.Distinct)
    (member : id ∈ batch.sequences) :
    c.Written ((batch.writes fun id => (c.sequence id).tokens).foldl Memory.write m) id := by
  intro i b place k inside before
  have device := fitted.device id member
  have place' : (c.deviceTable id)[i]? = some b := deviceTable_place device place
  refine Memory.foldl_write_device
    (fun e among slot => fitted.write_agrees sound distinct inside among slot place') ?_
  by_cases early : ((i * c.blockSize + k : Nat) : Int) < (c.sequence id).computed
  · have stored := stored i b place
    simp only [slotsOf, device, Bool.false_eq_true, if_false] at stored
    exact Or.inl (stored k inside early)
  · exact Or.inr (fitted.written sound member inside place (by omega) (by omega))

theorem Backed.executed (backed : c.Backed m) (distinct : c.Distinct) :
    c.Backed ((batch.writes fun id => (c.sequence id).tokens).foldl Memory.write m) ∧
      ∀ id ∈ batch.sequences,
        c.Written ((batch.writes fun id => (c.sequence id).tokens).foldl Memory.write m) id := by
  refine ⟨⟨fun id knows => ?_, fun h b found => ?_, backed.plain⟩, fun id member => ?_⟩
  · exact (backed.stored id knows).executed sound fitted distinct
  · have sharing : c.sharing = true := by
      by_contra off
      simp [backed.plain (by simpa using off)] at found
    exact (backed.published h b found).executed sound fitted distinct sharing found
  · exact (backed.stored id (fitted.knows id member)).written sound fitted distinct member

end Batches

end Cache

end PagedServing
