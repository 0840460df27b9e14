import PagedServing.Proofs.Cache.Content
import PagedServing.Proofs.Cache.Growth
import PagedServing.Proofs.Cache.Release
import PagedServing.Proofs.Cache.Swapping

/-! # Changes that move no block

Between two moves from one pool to the other, a cache changes in a few ways only. What all
of them keep is kept by whole operations of the scheduler.
-/

namespace PagedServing.Cache

/-- A change that copies nothing between the pools and computes nothing. -/
inductive Change : Cache → Cache → Prop where
  | allocated {c c' : Cache} {id : SeqId} {table : List Int} {computed cached : Int}
      (allocated : c.Allocated c' id table computed cached) : Change c c'
  | grown {c c' : Cache} {id : SeqId} {blocks : List Int} (grown : c.Grown c' id blocks)
      (covered : (c.sequence id).computed ≤ ((c.sequence id).table.length * c.blockSize : Nat)) :
      Change c c'
  | published {c c' : Cache} {id : SeqId} (knows : c.Knows id) (published : c.Published c' id)
      (computed : (c.sequence id).computed ≤ (c.sequence id).length) : Change c c'
  | released {c c' : Cache} {id : SeqId} (released : c.Released c' id)
      (computed : (c.sequence id).computed ≤ (c.sequence id).length) : Change c c'
  | noted {c c' : Cache} {id : SeqId} {q : Sequence} (noted : c.Noted c' id q)
      (computed : q.computed ≤ (c.sequence id).computed) : Change c c'
  | appended {c c' : Cache} {id : SeqId} {token : Int} (appended : c.Appended c' id token)
      (computed : (c.sequence id).computed ≤ (c.sequence id).length) : Change c c'
  | created {c c' : Cache} {id : SeqId} {q : Sequence} (created : c.Created c' id q)
      (bare : q.table = []) : Change c c'
  | reported (c : Cache) (journal : Logging.Journal) : Change c { c with journal }

/-- A run of changes. -/
abbrev Changes : Cache → Cache → Prop :=
  Relation.ReflTransGen Change

variable {c c' c'' : Cache} {id : SeqId}

/-- Work on the sequence `id` that leaves all others alone. -/
structure Handled (c c' : Cache) (id : SeqId) : Prop where
  sound : c'.Sound
  knows : c.Knows id
  count : c'.sequences.nextId = c.sequences.nextId
  others : ∀ other, other ≠ id → c'.sequence other = c.sequence other
  swapped : ∀ other, other ≠ id → c'.isSwapped other = c.isSwapped other
  origin : (c'.sequence id).origin = (c.sequence id).origin
  blockSize : c'.blockSize = c.blockSize
  sharing : c'.sharing = c.sharing
  size : c'.device.size = c.device.size

namespace Handled

theorem refl (sound : c.Sound) (knows : c.Knows id) : c.Handled c id :=
  ⟨sound, knows, rfl, fun _ _ => rfl, fun _ _ => rfl, rfl, rfl, rfl, rfl⟩

theorem trans (first : c.Handled c' id) (second : c'.Handled c'' id) : c.Handled c'' id where
  sound := second.sound
  knows := first.knows
  count := second.count.trans first.count
  others other different := (second.others other different).trans (first.others other different)
  swapped other different := (second.swapped other different).trans (first.swapped other different)
  origin := second.origin.trans first.origin
  blockSize := second.blockSize.trans first.blockSize
  sharing := second.sharing.trans first.sharing
  size := second.size.trans first.size

theorem of_replaced {q : Sequence} (sound : c'.Sound) (replaced : c.Replaced c' id q)
    (swapped : ∀ other, other ≠ id → c'.isSwapped other = c.isSwapped other)
    (origin : q.origin = (c.sequence id).origin)
    (size : c'.device.size = c.device.size) : c.Handled c' id :=
  ⟨sound, replaced.knows, replaced.count, replaced.others, swapped, replaced.self ▸ origin,
    replaced.blockSize, replaced.sharing, size⟩

theorem of_noted {q : Sequence} (sound : c.Sound) (noted : c.Noted c' id q) : c.Handled c' id :=
  of_replaced (noted.sound sound) noted.replaced (fun other _ => isSwapped_congr noted.swapped other)
    (Sequence.origin_of_account noted.alike.account) (by rw [noted.device])

theorem of_report (sound : c.Sound) (knows : c.Knows id) (journal : Logging.Journal) :
    c.Handled { c with journal } id :=
  ⟨sound.journal journal, knows, rfl, fun _ _ => rfl, fun _ _ => rfl, rfl, rfl, rfl, rfl⟩

theorem of_grown {blocks : List Int} (sound : c'.Sound) (grown : c.Grown c' id blocks) :
    c.Handled c' id :=
  of_replaced sound grown.replaced (fun other _ => isSwapped_congr grown.swapped other) rfl grown.size

theorem of_released (sound : c'.Sound) (released : c.Released c' id) : c.Handled c' id :=
  of_replaced sound released.replaced (fun _ => isSwapped_erased released.swapped) rfl released.size

variable (handled : c.Handled c' id)
include handled

theorem knows_iff (other : SeqId) : c'.Knows other ↔ c.Knows other := by
  simp only [Knows, handled.count]

theorem knows' : c'.Knows id :=
  (handled.knows_iff id).mpr handled.knows

theorem replaced : c.Replaced c' id (c'.sequence id) :=
  ⟨handled.knows, rfl, handled.others, handled.count, handled.blockSize, handled.sharing⟩

theorem symm (sound : c.Sound) : c'.Handled c id where
  sound := sound
  knows := handled.knows'
  count := handled.count.symm
  others other different := (handled.others other different).symm
  swapped other different := (handled.swapped other different).symm
  origin := handled.origin.symm
  blockSize := handled.blockSize.symm
  sharing := handled.sharing.symm
  size := handled.size.symm

theorem name : (c'.sequence id).requestId = (c.sequence id).requestId :=
  congrArg Origin.requestId handled.origin

/-- Nothing changes where any sequence comes from. -/
theorem origins (other : SeqId) : (c'.sequence other).origin = (c.sequence other).origin := by
  by_cases same : other = id
  · rw [same, handled.origin]
  · rw [handled.others other same]

theorem sized (sound : c.Sound) : (c'.sequence id).blockSize = (c.sequence id).blockSize := by
  rw [handled.sound.filed.sized id handled.knows', handled.blockSize,
    sound.filed.sized id handled.knows]

end Handled

/-- The sequence `id` of the second cache has no blocks any more. -/
structure Bared (c c' : Cache) (id : SeqId) : Prop where
  changes : c.Changes c'
  handled : c.Handled c' id
  table : (c'.sequence id).table = []
  device : c'.isSwapped id = false
  status : (c'.sequence id).status = (c.sequence id).status
  computed : (c'.sequence id).computed = (c.sequence id).computed
  account : (c'.sequence id).account = (c.sequence id).account
  gained : c.Gained c' (c.Publishes id)

theorem release_bared {c : Cache} (sound : c.Sound) (knows : c.Knows id)
    (computed : (c.sequence id).computed ≤ (c.sequence id).length) :
    (Cache.release id).Returns c fun _ c' => c.Bared c' id := by
  refine (Cache.release_returns sound knows computed).weaken ?_
  rintro _ c' ⟨sound', released⟩
  have self := released.replaced.self
  refine ⟨.single (.released released computed), .of_released sound' released, ?_, ?_, ?_, ?_, ?_,
    released.gained⟩
  · rw [self]
  · simp [Cache.isSwapped, released.swapped, sound.filed.swapped_nodup.mem_erase_iff]
  · rw [self]
  · rw [self]
  · rw [self]
    rfl

end PagedServing.Cache
