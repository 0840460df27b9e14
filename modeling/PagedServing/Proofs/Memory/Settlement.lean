import PagedServing.Proofs.Memory.Execution
import PagedServing.Proofs.Memory.Moves
import PagedServing.Proofs.Scheduler.Iteration

/-! # Memory after an iteration

Committing a batch counts as computed what the batch has written. When a batch fails, the
sequences whose blocks may not have been written give them up.
-/

namespace PagedServing

open Batch (pending slotOf)
open Memory (Holds)

namespace Memory

/-- A failed batch may leave anything where it was to copy or to write, and nothing
    elsewhere. -/
structure Spared (m m' : Memory) (b : Batch) : Prop where
  device : ∀ slot : Int, slot ∉ b.slots → slot / b.blockSize ∉ b.swapIn.values →
    slot / b.blockSize ∉ b.copies.map (·.2) → m'.device slot = m.device slot
  host : ∀ slot : Int, slot / b.blockSize ∉ b.swapOut.values → m'.host slot = m.host slot

/-- What a device does to the memory that writes nothing when it fails. -/
inductive Exact (b : Batch) (tokens : SeqId → List Int) (m : Memory) :
    Except String (List Sample) → Memory → Prop where
  | returned (samples : List Sample) : Exact b tokens m (.ok samples) (m.executed b tokens)
  | raised (text : String) : Exact b tokens m (.error text) m

/-- What a device does to the memory that may leave anything in the destinations of a batch
    that fails, or for which it returns the wrong number of samples. -/
inductive Loose (b : Batch) (tokens : SeqId → List Int) (m : Memory) :
    Except String (List Sample) → Memory → Prop where
  | returned {samples : List Sample} (count : samples.length = b.size) :
      Loose b tokens m (.ok samples) (m.executed b tokens)
  | failed {result : Except String (List Sample)} {m' : Memory}
      (failure : ∀ samples, result = .ok samples → samples.length ≠ b.size)
      (spared : m.Spared m' b) : Loose b tokens m result m'

theorem Exact.total (b : Batch) (tokens : SeqId → List Int) (m : Memory)
    (result : Except String (List Sample)) : ∃ m', Exact b tokens m result m' := by
  cases result with
  | ok samples => exact ⟨_, .returned samples⟩
  | error text => exact ⟨_, .raised text⟩

theorem Loose.total (b : Batch) (tokens : SeqId → List Int) (m : Memory)
    (result : Except String (List Sample)) : ∃ m', Loose b tokens m result m' := by
  have spared : m.Spared m b := ⟨fun _ _ _ _ => rfl, fun _ _ => rfl⟩
  cases result with
  | ok samples =>
      by_cases count : samples.length = b.size
      · exact ⟨_, .returned count⟩
      · refine ⟨m, .failed (fun samples' same => ?_) spared⟩
        cases same
        exact count
  | error text => exact ⟨m, .failed (fun _ none => by cases none) spared⟩

theorem moved_other {m : Memory} {b : Batch} {block : Int} {k : Nat} (inside : k < b.blockSize)
    (copies : b.copies = []) :
    (block ∉ b.swapIn.values →
      (m.moved b).device (block * b.blockSize + k) = m.device (block * b.blockSize + k)) ∧
    (block ∉ b.swapOut.values →
      (m.moved b).host (block * b.blockSize + k) = m.host (block * b.blockSize + k)) := by
  simp only [moved, copies, List.foldl_nil]
  exact ⟨copyBlocks_other inside, copyBlocks_other inside⟩

theorem moved_of_still {m : Memory} {b : Batch} (swapOut : b.swapOut = {}) (swapIn : b.swapIn = {})
    (copies : b.copies = []) : m.moved b = m := by
  simp [moved, swapOut, swapIn, copies, Memory.swapOut, Memory.swapIn, copyBlocks]

end Memory

namespace Scheduler

open Cache (Moves)

variable {s t : Scheduler} {c c' : Cache} {b : Batch} {m m' : Memory} {ids : List SeqId} {id : SeqId}
  {slack : Prop}

section Recompute

variable {moves : Moves}

/-- If no victim ends up on the host, no block was moved. -/
theorem Evicted.changes (evicted : Evicted c ids c' moves)
    (stay : ∀ id ∈ ids, c'.isSwapped id = false) : c.Changes c' ∧ moves = {} := by
  induction evicted with
  | nobody => exact ⟨.refl, rfl⟩
  | @next ids c₁ c₂ moves more id before new handled one ih =>
      have stayed : ∀ other ∈ ids, c₁.isSwapped other = false := by
        intro other member
        have different : other ≠ id := fun same => new (same ▸ member)
        rw [← handled.swapped other different]
        exact stay other (List.mem_cons_of_mem _ member)
      obtain ⟨changes, rfl⟩ := ih stayed
      cases one with
      | freed more _ => exact ⟨changes.trans more, rfl⟩
      | swapped _ _ _ _ host _ =>
          rw [stay id List.mem_cons_self] at host
          cases host

theorem Admitted.changes (admitted : Admitted c ids c' moves)
    (here : ∀ id, c.isSwapped id = false) : c.Changes c' ∧ moves = {} := by
  induction admitted with
  | nobody => exact ⟨.refl, rfl⟩
  | next before new _ one ih =>
      obtain ⟨changes, rfl⟩ := ih
      cases one with
      | covered more => exact ⟨changes.trans more, rfl⟩
      | back back _ =>
          have gone := back.before
          rw [(before.others new).2, here] at gone
          cases gone

end Recompute

theorem Planned.still (planned : Planned c s b slack) (recompute : s.config.preemption = .recompute) :
    c.Changes s.cache ∧ m.moved b = m := by
  obtain ⟨evicted, unswapped, admitted, changes⟩ := planned.moved
  obtain ⟨first, swapOut⟩ := evicted.changes fun id _ => unswapped recompute id
  obtain ⟨second, swapIn⟩ := admitted.changes (unswapped recompute)
  exact ⟨(first.trans second).trans changes,
    Memory.moved_of_still swapOut swapIn planned.copies⟩

theorem Planned.extends (planned : Planned c s b slack) : c.Extends s.cache := by
  obtain ⟨evicted, _, admitted, changes⟩ := planned.moved
  exact ((evicted.extends Preempted.extends).trans (admitted.extends Resumed.extends)).trans
    changes.extends

/-- After planning, every sequence is stored once the block operations are done. -/
theorem Planned.backed (planned : Planned c s b slack) (sound : c.Sound)
    (mode : s.config.preemption = .recompute ∨ s.config.sharing = false)
    (distinct : s.cache.Distinct) (backed : c.Backed m) : s.cache.Backed (m.moved b) := by
  rcases mode with recompute | off
  · obtain ⟨changes, still⟩ := planned.still (m := m) recompute
    rw [still]
    exact changes.backed distinct backed
  · have size : b.blockSize = c.blockSize := planned.blockSize.trans planned.extends.blockSize
    have off : c.sharing = false :=
      planned.extends.sharing.symm.trans (planned.orderly.configured.sharing.trans off)
    obtain ⟨evicted, _, admitted, changes⟩ := planned.moved
    obtain ⟨out, _⟩ := evicted.backed sound off backed
    obtain ⟨back, _⟩ := admitted.backed (evicted.sound sound) (evicted.sharing.trans off) out
    rw [evicted.blockSize] at back
    simp only [Memory.moved, planned.copies, List.foldl_nil, size]
    exact changes.backed distinct back

theorem Planned.fitted (planned : Planned c s b slack) : s.cache.Fitted b := by
  have runs : ∀ id ∈ b.sequences, s.cache.Knows id ∧ s.cache.isSwapped id = false ∧
      (s.cache.sequence id).length ≤ (s.cache.sequence id).table.length * s.cache.blockSize := by
    intro id member
    obtain ⟨knows, status⟩ := planned.orderly.lined.running id (planned.running id member)
    have placed := planned.orderly.staged.placed id knows List.not_mem_nil
    rw [if_pos member] at placed
    obtain ⟨device, table⟩ := placed.running status
    have capacity := table.length_le_capacity
    rw [planned.orderly.sound.filed.sized id knows] at capacity
    exact ⟨knows, device, capacity⟩
  exact ⟨planned.laid, fun id member => (runs id member).1, fun id member => (runs id member).2.1,
    fun id member => planned.orderly.staged.progressed id (runs id member).1,
    fun id member => (runs id member).2.2⟩

theorem Committed.backed (committed : Committed c c' id) (distinct : c'.Distinct)
    (device : c.isSwapped id = false) (written : c.Written m id) (backed : c.Backed m) :
    c'.Backed m := by
  obtain ⟨c₁, noted, changes⟩ := committed.computed
  refine changes.backed distinct ?_
  refine backed.replaced noted.replaced (.of_noted noted)
    (fun other _ => Cache.isSwapped_congr noted.swapped other) ?_
    fun h b found => Or.inl (noted.device ▸ found)
  intro i b place
  have self := noted.replaced.self
  rw [self] at place ⊢
  simp only [Cache.slotsOf, Cache.isSwapped_congr noted.swapped, device, Bool.false_eq_true, if_false,
    noted.replaced.blockSize]
  exact written i b place

theorem Committed.extends (committed : Committed c c' id) : c.Extends c' := by
  obtain ⟨c₁, noted, changes⟩ := committed.computed
  exact (Cache.Extends.of_noted noted).trans changes.extends

theorem CommittedEach.extends (each : CommittedEach ids c c') : c.Extends c' := by
  induction each with
  | nil c => exact .refl c
  | cons first _ ih => exact first.extends.trans ih

theorem CommittedEach.backed (each : CommittedEach ids c c') (nodup : ids.Nodup)
    (distinct : c'.Distinct) (device : ∀ id ∈ ids, c.isSwapped id = false)
    (written : ∀ id ∈ ids, c.Written m id) (backed : c.Backed m) : c'.Backed m := by
  induction each with
  | nil _ => exact backed
  | @cons id ids c c₁ c₂ first rest ih =>
      obtain ⟨absent, nodup⟩ := List.nodup_cons.mp nodup
      have backed₁ := first.backed (rest.extends.distinct distinct) (device id List.mem_cons_self)
        (written id List.mem_cons_self) backed
      refine ih nodup distinct (fun other member => ?_) (fun other member => ?_) backed₁
      · have different : other ≠ id := fun same => absent (same ▸ member)
        rw [first.handled.swapped other different]
        exact device other (List.mem_cons_of_mem _ member)
      · have different : other ≠ id := fun same => absent (same ▸ member)
        have before := written other (List.mem_cons_of_mem _ member)
        unfold Cache.Written at before ⊢
        rw [first.handled.others other different, first.handled.blockSize]
        exact before

theorem slot_of_batch (fitted : c.Fitted b) (sound : c.Sound) {block : Int} {k : Nat}
    (inside : k < c.blockSize) (member : block * c.blockSize + k ∈ b.slots) :
    ∃ id ∈ b.sequences, block ∈ c.deviceTable id := by
  rw [fitted.laid.slots, List.mem_flatMap] at member
  obtain ⟨id, among, member⟩ := member
  obtain ⟨p, unprocessed, slot⟩ := List.mem_map.mp member
  have size := sound.filed.sized id (fitted.knows id among)
  have covered : p / c.blockSize < (c.sequence id).table.length :=
    (Nat.div_lt_iff_lt_mul c.blockSize_pos).mpr
      ((Batch.mem_pending.mp unprocessed).2.trans_le (fitted.covered id among))
  simp only [slotOf, size] at slot
  obtain ⟨same, -⟩ := Memory.slot_inj (Nat.mod_lt p c.blockSize_pos) inside slot
  refine ⟨id, among, ?_⟩
  rw [Cache.deviceTable_of_device (fitted.device id among), ← same,
    List.getD_eq_getElem?_getD, List.getElem?_eq_getElem covered]
  exact List.getElem_mem covered

theorem touches_eq_false {targets table : List Int} (spared : ¬ touches targets table = true)
    {block : Int} (member : block ∈ table) : block ∉ targets := by
  intro among
  refine spared ?_
  unfold touches
  exact List.any_eq_true.mpr ⟨block, member, by simpa using among⟩

theorem kept_apart (kept : ¬ s.Lost b id) : id ∉ b.sequences ∧
    (s.cache.isSwapped id = true → ¬ touches b.swapOut.values (s.cache.sequence id).table = true) ∧
    (s.cache.isSwapped id = false → ¬ touches b.swapIn.values (s.cache.sequence id).table = true) := by
  unfold Lost Doubtful at kept
  tauto

/-- Whoever keeps its blocks after a failure has none that the batch was to write. -/
theorem Dropped.backed (dropped : s.Dropped t (s.Lost b)) (planned : Planned c s b slack)
    (sound' : t.cache.Sound) (off : s.config.sharing = false) (spared : m.Spared m' b)
    (backed : s.cache.Backed (m.moved b)) : t.cache.Backed m' := by
  have sound := planned.orderly.sound
  have fitted := planned.fitted
  have offCache : s.cache.sharing = false := planned.orderly.configured.sharing.trans off
  have extended := dropped.carried.changes.extends
  have unpublished := sound'.unpublished (extended.sharing.trans offCache)
  have blockSize := planned.blockSize
  refine ⟨fun id _ => ?_, fun h b found => ?_, fun _ => unpublished⟩
  · rcases dropped.others id with ⟨same, side, kept⟩ | bare
    · by_cases bare : (s.cache.sequence id).table = []
      · exact .of_bare (same.symm ▸ bare)
      -- whoever keeps blocks is no member of the batch, and none of its copies was for them
      · have knows : s.cache.Knows id := by
          by_contra unknown
          exact bare (Cache.table_of_unknown unknown)
        obtain ⟨outside, out, back⟩ := kept_apart kept
        intro i block place
        rw [same] at place ⊢
        have stored := backed.stored id knows i block place
        have member := List.mem_of_getElem? place
        unfold Cache.slotsOf at stored ⊢
        rw [side, extended.blockSize]
        cases swapped : s.cache.isSwapped id with
        | true =>
            simp only [swapped, if_true] at stored ⊢
            have away := touches_eq_false (out swapped) member
            refine stored.transport fun k inside => ?_
            rw [← blockSize] at inside ⊢
            rw [(Memory.moved_other inside planned.copies).2 away]
            exact spared.host _ (by rwa [Memory.slot_div inside])
        | false =>
            simp only [swapped, Bool.false_eq_true, if_false] at stored ⊢
            have away := touches_eq_false (back swapped) member
            have tables := Cache.deviceTable_of_device swapped
            refine stored.transport fun k inside => ?_
            have unwritten : block * s.cache.blockSize + k ∉ b.slots := by
              intro among
              -- a slot that is written belongs to a member, and without sharing nobody else has its block
              obtain ⟨writer, writes, holds⟩ := slot_of_batch fitted sound inside among
              obtain ⟨j, there⟩ := List.mem_iff_getElem?.mp holds
              obtain ⟨rfl, -⟩ := Cache.place_unique (sound.device_single offCache block) knows
                (fitted.knows writer writes) (tables.symm ▸ place) there
              exact outside writes
            rw [← blockSize] at inside unwritten ⊢
            rw [(Memory.moved_other inside planned.copies).1 away]
            exact spared.device _ unwritten (by rwa [Memory.slot_div inside])
              (by simp [planned.copies])
    · exact .of_bare bare
  · simp [unpublished] at found

end Scheduler

end PagedServing
