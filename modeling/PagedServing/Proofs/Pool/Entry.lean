import PagedServing.Pool

/-! # What a pool holds

A number names a block of a pool if it counts from the first block. The operations are
read through the blocks of such names: what each one does to the entry of a name, and to
the registry.
-/

namespace PagedServing.Pool

/-- The number names a block, counted from the first one. -/
def Has (p : Pool) (b : Int) : Prop :=
  0 ≤ b ∧ b < p.size

/-- The block of a name. A number that names none has an empty one. -/
def entry (p : Pool) (b : Int) : Block :=
  (p.block? b).getD {}

theorem resolve_of_has {p : Pool} {b : Int} (has : p.Has b) :
    Offset.resolve p.blocks.length b = some b.toNat := by
  obtain ⟨k, rfl⟩ := Int.eq_ofNat_of_zero_le has.1
  have inside : k < p.blocks.length := Int.ofNat_lt.mp has.2
  simpa using Offset.resolve_ofNat inside

theorem block?_of_has {p : Pool} {b : Int} (has : p.Has b) : p.block? b = some (p.entry b) := by
  have inside : b.toNat < p.blocks.length := by
    have := has.1
    have := has.2
    unfold size at this
    omega
  simp [entry, block?, Offset.get?, resolve_of_has has, inside]

theorem refs_eq (p : Pool) (b : Int) : p.refs b = (p.entry b).refs := by
  unfold refs entry
  cases p.block? b <;> rfl

theorem entry_congr {p q : Pool} (same : q.blocks = p.blocks) (b : Int) :
    q.entry b = p.entry b := by
  simp only [entry, block?, same]

section UpdateBlock

variable (p : Pool) (id : Int) (f : Block → Block)

@[simp]
theorem updateBlock_size : (p.updateBlock id f).size = p.size := by
  unfold updateBlock size
  split <;> simp

@[simp]
theorem updateBlock_registry : (p.updateBlock id f).registry = p.registry := by
  unfold updateBlock
  split <;> rfl

@[simp]
theorem updateBlock_free : (p.updateBlock id f).free = p.free := by
  unfold updateBlock
  split <;> rfl

@[simp]
theorem updateBlock_used : (p.updateBlock id f).used = p.used := by
  unfold updateBlock
  split <;> rfl

variable {p id}

theorem entry_updateBlock (has : p.Has id) {b : Int} (natural : 0 ≤ b) :
    (p.updateBlock id f).entry b = if b = id then f (p.entry id) else p.entry b := by
  obtain ⟨i, rfl⟩ := Int.eq_ofNat_of_zero_le has.1
  obtain ⟨k, rfl⟩ := Int.eq_ofNat_of_zero_le natural
  have inside : i < p.blocks.length := Int.ofNat_lt.mp has.2
  simp only [updateBlock, resolve_of_has has, Int.toNat_natCast, entry, block?, Offset.get?,
    List.length_modify]
  by_cases beyond : k < p.blocks.length
  · by_cases same : k = i
    · subst same
      simp [Offset.resolve_ofNat beyond, beyond]
    · have different : ¬ (k : Int) = i := fun equal => same (Int.ofNat.inj equal)
      simp [Offset.resolve_ofNat beyond, Ne.symm same, different]
  · have none : Offset.resolve p.blocks.length (k : Int) = none := by
      simp [Offset.resolve, beyond]
    have different : ¬ (k : Int) = i := fun same => beyond (Int.ofNat.inj same ▸ inside)
    simp [none, different]

end UpdateBlock

section Unregister

variable (p : Pool) (id : Int)

@[simp]
theorem unregister_blocks : (p.unregister id).blocks = p.blocks := by
  unfold unregister
  split
  · split <;> rfl
  · rfl

@[simp]
theorem unregister_free : (p.unregister id).free = p.free := by
  unfold unregister
  split
  · split <;> rfl
  · rfl

@[simp]
theorem unregister_used : (p.unregister id).used = p.used := by
  unfold unregister
  split
  · split <;> rfl
  · rfl

variable {p id}

theorem unregister_get? (has : p.Has id) (h : Int) :
    (p.unregister id).registry.get? h =
      if (p.entry id).hash = h ∧ h ≠ noHash ∧ p.registry.get? h = some id then none
      else p.registry.get? h := by
  simp only [unregister, block?_of_has has]
  split
  · rename_i found
    by_cases same : (p.entry id).hash = h
    · subst same
      simp [found.1, found.2]
    · simp [same, Ne.symm same]
  · rename_i missing
    split
    · rename_i found
      obtain ⟨rfl, real, registered⟩ := found
      exact absurd ⟨real, registered⟩ missing
    · rfl

end Unregister

section Claim

variable (p : Pool) (id : Int)

@[simp]
theorem claim_free : (p.claim id).free = p.free := by
  simp [claim]

@[simp]
theorem claim_used : (p.claim id).used = p.used.insert id := by
  simp [claim]

@[simp]
theorem claim_size : (p.claim id).size = p.size := by
  have unregistered : (p.unregister id).size = p.size := by simp [size]
  simpa [claim, size] using (updateBlock_size (p.unregister id) id _).trans unregistered

variable {p id}

theorem has_unregister {b : Int} : (p.unregister id).Has b ↔ p.Has b := by
  simp [Has, size]

/-- A block that is handed out for new content holds nothing yet. -/
theorem entry_claim (has : p.Has id) {b : Int} (natural : 0 ≤ b) :
    (p.claim id).entry b = if b = id then { refs := 1 } else p.entry b := by
  have claimed : (p.claim id).entry b =
      ((p.unregister id).updateBlock id fun _ => { refs := 1 }).entry b :=
    entry_congr rfl b
  rw [claimed, entry_updateBlock _ (has_unregister.mpr has) natural,
    entry_congr (unregister_blocks p id) b]

theorem claim_get? (has : p.Has id) (h : Int) :
    (p.claim id).registry.get? h =
      if (p.entry id).hash = h ∧ h ≠ noHash ∧ p.registry.get? h = some id then none
      else p.registry.get? h := by
  rw [← unregister_get? has]
  simp [claim]

/-- The free list plays no part in claiming a block. -/
theorem claim_withFree (p : Pool) (id : Int) (free : List Int) :
    { p with free }.claim id = { p.claim id with free } := by
  have unregistered : { p with free }.unregister id = { p.unregister id with free } := by
    have same : { p with free }.block? id = p.block? id := rfl
    unfold unregister
    rw [same]
    cases p.block? id with
    | none => rfl
    | some b =>
        dsimp only
        split <;> rfl
  simp only [claim, unregistered, updateBlock]
  cases Offset.resolve (p.unregister id).blocks.length id <;> rfl

end Claim

end PagedServing.Pool
