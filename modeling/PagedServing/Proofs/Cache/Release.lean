import PagedServing.Proofs.Cache.Publication

/-! # Releasing the blocks of a sequence

A sequence that gives its blocks back leaves the tables of the others alone. What it has
computed stays published, if it was on the device.
-/

namespace PagedServing.Cache

variable {c c' : Cache} {id : SeqId} {q : Sequence}

/-- What releasing the blocks of a sequence does. -/
structure Released (c c' : Cache) (id : SeqId) : Prop where
  replaced : c.Replaced c' id { c.sequence id with cached := 0, table := [] }
  swapped : c'.swapped = c.swapped.erase id
  size : c'.device.size = c.device.size
  gained : c.Gained c' (c.Publishes id)

section Emptied

variable (replaced : c.Replaced c' id q) (bare : q.table = [])
  (swapped : c'.swapped = c.swapped.erase id)

include swapped in
theorem isSwapped_erased {other : SeqId} (different : other ≠ id) :
    c'.isSwapped other = c.isSwapped other := by
  simp [isSwapped, swapped, List.mem_erase_of_ne different]

include replaced bare in
theorem deviceTable_emptied : c'.deviceTable id = [] := by
  simp [deviceTable, replaced.self, bare]

include replaced bare in
theorem hostTable_emptied : c'.hostTable id = [] := by
  simp [hostTable, replaced.self, bare]

include replaced bare swapped

theorem deviceHolders_emptied (b : Int) :
    c'.deviceHolders b + (c.deviceTable id).count b = c.deviceHolders b := by
  have change := deviceHolders_replaced replaced
    (fun other different => isSwapped_erased swapped different) b
  rwa [deviceTable_emptied replaced bare, List.count_nil] at change

theorem hostHolders_emptied (b : Int) :
    c'.hostHolders b + (c.hostTable id).count b = c.hostHolders b := by
  have change := hostHolders_replaced replaced
    (fun other different => isSwapped_erased swapped different) b
  rwa [hostTable_emptied replaced bare, List.count_nil] at change

theorem place_emptied {other : SeqId} {i : Nat} {b : Int}
    (place : (c'.deviceTable other)[i]? = some b) :
    (c.deviceTable other)[i]? = some b ∧ c'.sequence other = c.sequence other := by
  by_cases same : other = id
  · rw [same, deviceTable_emptied replaced bare] at place
    cases place
  · rw [deviceTable_others replaced same (isSwapped_erased swapped same)] at place
    exact ⟨place, replaced.others other same⟩

end Emptied

theorem Filed.emptied (filed : c.Filed)
    (replaced : c.Replaced c' id { c.sequence id with cached := 0, table := [] })
    (swapped : c'.swapped = c.swapped.erase id) (host : c.host.isSome → c'.host.isSome) :
    c'.Filed := by
  have among : ∀ other ∈ c'.swapped, other ∈ c.swapped := fun other member =>
    List.mem_of_mem_erase (swapped ▸ member)
  exact filed.replaced replaced (filed.numbered id replaced.knows) (filed.sized id replaced.knows)
    (filed.fits id replaced.knows) (swapped ▸ filed.swapped_nodup.erase id)
    (fun other member => filed.swapped_known other (among other member))
    (fun other member => host (filed.swapped_host other (among other member)))

/-- Without the blocks of one sequence, the labels are right for the others. -/
theorem Labelled.emptied (labelled : c.Labelled) (pool : c.device.Balanced c.deviceHolders)
    (replaced : c.Replaced c' id q) (bare : q.table = [])
    (swapped : c'.swapped = c.swapped.erase id) (agrees : c.device.Agrees c'.device) :
    c'.Labelled := by
  refine labelled.of_agrees agrees replaced.blockSize replaced.sharing (fun b _ _ => ?_)
    fun other i b place => ?_
  · have := deviceHolders_emptied replaced bare swapped b
    omega
  · obtain ⟨before, same⟩ := place_emptied replaced bare swapped place
    rw [same]
    exact ⟨(has_of_mem pool (List.mem_of_getElem? before)).1,
      labelled.chained other i b before⟩

/-- Without the blocks of one sequence, the cache is sound if the pools took them back. -/
theorem Sound.emptied (sound : c.Sound)
    (replaced : c.Replaced c' id { c.sequence id with cached := 0, table := [] })
    (swapped : c'.swapped = c.swapped.erase id) (agrees : c.device.Agrees c'.device)
    (device : c'.device.Balanced fun b => c.deviceHolders b - (c.deviceTable id).count b)
    (host : ∀ p, c'.host = some p → p.Balanced fun b => c.hostHolders b - (c.hostTable id).count b)
    (some : c.host.isSome → c'.host.isSome) : c'.Sound := by
  have onDevice := deviceHolders_emptied replaced rfl swapped
  have onHost := hostHolders_emptied replaced rfl swapped
  refine ⟨sound.filed.emptied replaced swapped some, ⟨?_, fun p eq => ?_, fun b => ?_⟩,
    sound.labelled.emptied sound.balanced.device replaced rfl swapped agrees⟩
  · exact device.congr fun b => by
      have := onDevice b
      omega
  · exact (host p eq).congr fun b => by
      have := onHost b
      omega
  · have := sound.balanced.host_single b
    have := onHost b
    omega

theorem release_returns_swapped (sound : c.Sound) (knows : c.Knows id)
    (swapped : c.isSwapped id = true) :
    (release id).Returns c fun _ c' => c'.Sound ∧ c.Released c' id := by
  obtain ⟨p, host⟩ := Option.isSome_iff_exists.mp
    (sound.filed.swapped_host id (by simpa [isSwapped] using swapped))
  simp only [release, Action.returns_bind, Action.returns_get, swapped, if_true, Action.returns_modify,
    returns_onHost host, returns_edit]
  have tables := hostTable_of_swapped swapped
  have balanced := sound.balanced.host p host
  refine (balanced.release fun b => ?_).weaken ?_
  · rw [List.count_reverse, ← tables]
    exact count_le_hostHolders knows b
  · rintro _ p' ⟨released, _⟩
    have replaced := replaced_with knows c.device (some p') (c.swapped.erase id)
      fun s => { s with cached := 0, table := [] }
    refine ⟨sound.emptied replaced rfl (Pool.Agrees.refl _) ?_ ?_ fun _ => rfl,
      replaced, rfl, rfl, .none rfl fun _ _ _ publishes => ?_⟩
    · refine sound.balanced.device.congr fun b => ?_
      rw [deviceTable_of_swapped swapped, List.count_nil, Nat.sub_zero]
    · rintro _ ⟨⟩
      refine released.congr fun b => ?_
      rw [tables, List.count_reverse]
    · simp [publishes.device] at swapped

theorem release_returns_device (sound : c.Sound) (knows : c.Knows id)
    (device : c.isSwapped id = false)
    (computed : (c.sequence id).computed ≤ (c.sequence id).length) :
    (release id).Returns c fun _ c' => c'.Sound ∧ c.Released c' id := by
  simp only [release, Action.returns_bind, Action.returns_get, device, Bool.false_eq_true, if_false,
    returns_look, returns_onDevice, returns_edit]
  refine (publish_returns sound knows computed).weaken ?_
  rintro _ c' ⟨published, sound'⟩
  have first := published.replaced knows
  have knows' := (first.knows_iff id).mpr knows
  have device' : c'.isSwapped id = false := (isSwapped_congr published.swapped id).trans device
  have outside : id ∉ c'.swapped := by simpa [isSwapped] using device'
  have tables := deviceTable_of_device device'
  refine (sound'.balanced.device.release fun b => ?_).weaken ?_
  · rw [List.count_reverse, ← tables]
    exact count_le_deviceHolders knows' b
  · rintro _ p ⟨released, agrees⟩
    have second := replaced_with knows' p c'.host c'.swapped
      fun s => { s with cached := 0, table := [] }
    have both := first.trans second
    rw [published.sequence id] at both
    refine ⟨sound'.emptied second (List.erase_of_not_mem outside).symm agrees ?_ ?_ fun some => some,
      both, ?_, agrees.size.trans published.size, published.gained.agrees agrees⟩
    · refine released.congr fun b => ?_
      rw [tables, List.count_reverse]
    · intro p host
      refine (sound'.balanced.host p host).congr fun b => ?_
      rw [hostTable_of_device device', List.count_nil, Nat.sub_zero]
    · rw [← published.swapped, List.erase_of_not_mem outside]

theorem release_returns (sound : c.Sound) (knows : c.Knows id)
    (computed : (c.sequence id).computed ≤ (c.sequence id).length) :
    (release id).Returns c fun _ c' => c'.Sound ∧ c.Released c' id := by
  cases place : c.isSwapped id with
  | true => exact release_returns_swapped sound knows place
  | false => exact release_returns_device sound knows place computed

end PagedServing.Cache
