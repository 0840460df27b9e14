import PagedServing.Cache.Swapping
import PagedServing.Proofs.Cache.Supply

/-! # Swapping

A sequence that moves to the other pool takes blocks there that nobody held, one for each
block that it gives up.
-/

namespace PagedServing.Cache

variable {c c' : Cache} {id : SeqId} {blocks : List Int}

/-- What moving a sequence to the host does. -/
structure SwappedOut (c c' : Cache) (id : SeqId) (blocks : List Int) : Prop where
  replaced : c.Replaced c' id { c.sequence id with table := blocks }
  before : c.isSwapped id = false
  swapped : c'.swapped = c.swapped.insert id
  length : blocks.length = (c.sequence id).table.length
  fresh : ∀ b ∈ blocks, c.hostHolders b = 0
  distinct : blocks.Nodup
  size : c'.device.size = c.device.size
  registry : c'.device.registry = c.device.registry

/-- What moving a sequence back to the device does. -/
structure SwappedIn (c c' : Cache) (id : SeqId) (blocks : List Int) : Prop where
  replaced : c.Replaced c' id { c.sequence id with table := blocks }
  before : c.isSwapped id = true
  swapped : c'.swapped = c.swapped.erase id
  length : blocks.length = (c.sequence id).table.length
  fresh : ∀ b ∈ blocks, c.deviceHolders b = 0
  distinct : blocks.Nodup
  renewed : c.device.Renewed c'.device blocks

theorem taken_fresh {p : Pool} {held : Int → Nat} (balanced : p.Balanced held) {n : Nat}
    (taken : blocks = p.free.take n) : (∀ b ∈ blocks, held b = 0) ∧ blocks.Nodup := by
  refine ⟨fun b member => ?_, taken ▸ balanced.free_nodup.take⟩
  exact ((balanced.mem_free b).mp (List.mem_of_mem_take (taken ▸ member))).2

theorem count_le_one {held : Nat} {b : Int} (fresh : b ∈ blocks → held = 0)
    (distinct : blocks.Nodup) (few : held ≤ 1) : held + blocks.count b ≤ 1 := by
  by_cases member : b ∈ blocks
  · rw [fresh member, List.count_eq_one_of_mem distinct member]
  · rw [List.count_eq_zero_of_not_mem member]
    exact few

namespace SwappedOut

variable (out : c.SwappedOut c' id blocks)
include out

theorem isSwapped_self : c'.isSwapped id = true := by
  simp [isSwapped, out.swapped]

theorem isSwapped_others {other : SeqId} (different : other ≠ id) :
    c'.isSwapped other = c.isSwapped other := by
  simp [isSwapped, out.swapped, different]

theorem deviceTable_self : c'.deviceTable id = [] :=
  deviceTable_of_swapped out.isSwapped_self

theorem hostTable_self : c'.hostTable id = blocks := by
  rw [hostTable_of_swapped out.isSwapped_self, out.replaced.self]

theorem deviceHolders (b : Int) :
    c'.deviceHolders b + (c.deviceTable id).count b = c.deviceHolders b := by
  have change := deviceHolders_replaced out.replaced (fun _ => out.isSwapped_others) b
  rwa [out.deviceTable_self, List.count_nil] at change

theorem hostHolders (b : Int) : c'.hostHolders b = c.hostHolders b + blocks.count b := by
  have change := hostHolders_replaced out.replaced (fun _ => out.isSwapped_others) b
  rwa [out.hostTable_self, hostTable_of_device out.before, List.count_nil] at change

theorem labelled (labelled : c.Labelled) (pool : c.device.Balanced c.deviceHolders)
    (agrees : c.device.Agrees c'.device) : c'.Labelled := by
  refine labelled.of_agrees agrees out.replaced.blockSize out.replaced.sharing
    (fun b _ _ => ?_) fun other i b place => ?_
  · have := out.deviceHolders b
    omega
  · by_cases same : other = id
    · rw [same, out.deviceTable_self] at place
      cases place
    · rw [deviceTable_others out.replaced same (out.isSwapped_others same)] at place
      rw [out.replaced.others other same]
      exact ⟨(has_of_mem pool (List.mem_of_getElem? place)).1, labelled.chained other i b place⟩

theorem sound (sound : c.Sound) (agrees : c.device.Agrees c'.device)
    (device : c'.device.Balanced fun b => c.deviceHolders b - (c.deviceTable id).count b)
    (host : ∀ p, c'.host = some p → p.Balanced fun b => c.hostHolders b + blocks.count b)
    (some : c'.host.isSome) : c'.Sound := by
  refine ⟨?_, ⟨?_, fun p eq => ?_, fun b => ?_⟩,
    out.labelled sound.labelled sound.balanced.device agrees⟩
  · refine sound.filed.replaced out.replaced (sound.filed.numbered id out.replaced.knows)
      (sound.filed.sized id out.replaced.knows) (sound.filed.fits id out.replaced.knows)
      (out.swapped ▸ sound.filed.swapped_nodup.insert) (fun other member => ?_) fun _ _ => some
    rw [out.swapped, List.mem_insert_iff] at member
    rcases member with rfl | old
    · exact out.replaced.knows
    · exact sound.filed.swapped_known other old
  · exact device.congr fun b => by
      have := out.deviceHolders b
      omega
  · exact (host p eq).congr out.hostHolders
  · rw [out.hostHolders]
    exact count_le_one (out.fresh b) out.distinct (sound.balanced.host_single b)

end SwappedOut

namespace SwappedIn

variable (back : c.SwappedIn c' id blocks)
include back

theorem isSwapped_self (once : c.swapped.Nodup) : c'.isSwapped id = false := by
  simp [isSwapped, back.swapped, once.mem_erase_iff]

theorem isSwapped_others {other : SeqId} (different : other ≠ id) :
    c'.isSwapped other = c.isSwapped other := by
  simp [isSwapped, back.swapped, List.mem_erase_of_ne different]

theorem deviceTable_self (once : c.swapped.Nodup) : c'.deviceTable id = blocks := by
  rw [deviceTable_of_device (back.isSwapped_self once), back.replaced.self]

theorem hostTable_self (once : c.swapped.Nodup) : c'.hostTable id = [] :=
  hostTable_of_device (back.isSwapped_self once)

theorem deviceHolders (once : c.swapped.Nodup) (b : Int) :
    c'.deviceHolders b = c.deviceHolders b + blocks.count b := by
  have change := deviceHolders_replaced back.replaced (fun _ => back.isSwapped_others) b
  rwa [back.deviceTable_self once, deviceTable_of_swapped back.before, List.count_nil] at change

theorem hostHolders (once : c.swapped.Nodup) (b : Int) :
    c'.hostHolders b + (c.hostTable id).count b = c.hostHolders b := by
  have change := hostHolders_replaced back.replaced (fun _ => back.isSwapped_others) b
  rwa [back.hostTable_self once, List.count_nil] at change

/-- The blocks were handed out for new content. -/
theorem supplied (once : c.swapped.Nodup) : c.Supplied c' := by
  refine .of_renewed back.renewed back.fresh fun b => ?_
  rw [back.deviceHolders once]
  exact Nat.le_add_right _ _

theorem labelled (labelled : c.Labelled) (once : c.swapped.Nodup)
    (pool : c.device.Balanced c.deviceHolders) : c'.Labelled := by
  have holders := back.deviceHolders once
  refine labelled.of_renewed back.renewed back.replaced.blockSize back.replaced.sharing
    (fun b member => ?_) (fun b outside => ?_) (fun other i b place => ?_) fun other => ?_
  · rw [holders, back.fresh b member, List.count_eq_one_of_mem back.distinct member]
  · rw [holders, List.count_eq_zero_of_not_mem outside]
    exact Nat.le_refl _
  · by_cases same : other = id
    · rw [same, back.deviceTable_self once] at place
      exact Or.inl (List.mem_of_getElem? place)
    · rw [deviceTable_others back.replaced same (back.isSwapped_others same)] at place
      exact Or.inr ⟨(has_of_mem pool (List.mem_of_getElem? place)).1, place⟩
  · by_cases same : other = id
    · rw [same, back.replaced.self]
      rfl
    · rw [back.replaced.others other same]

theorem sound (sound : c.Sound)
    (device : c'.device.Balanced fun b => c.deviceHolders b + blocks.count b)
    (host : ∀ p, c'.host = some p → p.Balanced fun b => c.hostHolders b - (c.hostTable id).count b)
    (some : c'.host.isSome) : c'.Sound := by
  have once := sound.filed.swapped_nodup
  refine ⟨?_, ⟨device.congr (back.deviceHolders once), fun p eq => ?_, fun b => ?_⟩,
    back.labelled sound.labelled once sound.balanced.device⟩
  · refine sound.filed.replaced back.replaced (sound.filed.numbered id back.replaced.knows)
      (sound.filed.sized id back.replaced.knows) (sound.filed.fits id back.replaced.knows)
      (back.swapped ▸ once.erase id) (fun other member => ?_) fun _ _ => some
    exact sound.filed.swapped_known other (List.mem_of_mem_erase (back.swapped ▸ member))
  · exact (host p eq).congr fun b => by
      have := back.hostHolders once b
      omega
  · have := back.hostHolders once b
    have := sound.balanced.host_single b
    omega

end SwappedIn

section Moves

variable (knows : c.Knows id) (pool : c.device.Balanced c.deviceHolders)
  (hosts : ∀ p, c.host = some p → p.Balanced c.hostHolders)
include knows pool hosts

/-- A sequence moves to the host if its blocks find room there. -/
theorem swapOut_moves (device : c.isSwapped id = false) (room : c.canSwapOut id = true) :
    (swapOut id).Returns c fun moves c' => ∃ blocks, c.SwappedOut c' id blocks ∧
      moves = .ofList ((c.sequence id).table.zip blocks) ∧ c.device.Agrees c'.device ∧
      c'.device.Balanced (fun b => c.deviceHolders b - (c.deviceTable id).count b) ∧
      c'.host.isSome ∧ ∀ p, c'.host = some p → p.Balanced fun b => c.hostHolders b + blocks.count b := by
  unfold canSwapOut at room
  cases host : c.host with
  | none => simp [host] at room
  | some p =>
      have room : (c.sequence id).table.length ≤ p.freeCount := by simpa [host] using room
      simp only [swapOut, Action.returns_bind, Action.returns_get, Action.returns_require, host,
        Option.isSome_some, device, Bool.not_false, true_and, returns_onHost host, returns_onDevice,
        returns_edit, Action.returns_modify, Action.returns_pure]
      have balanced := hosts p host
      refine (Pool.allocate_returns balanced (Int.natCast_nonneg _)
        (Int.ofNat_le.mpr room)).weaken ?_
      rintro blocks h ⟨taken, hostBalanced, _, _⟩
      obtain ⟨fresh, distinct⟩ := taken_fresh balanced taken
      have tables := deviceTable_of_device device
      refine (pool.release fun b => ?_).weaken ?_
      · rw [← tables]
        exact count_le_deviceHolders knows b
      · rintro _ d ⟨released, agrees⟩
        have out : c.SwappedOut _ id blocks :=
          { replaced := replaced_with knows d (some h) (c.swapped.insert id)
              fun s => { s with table := blocks }
            before := device
            swapped := rfl
            length := by simpa [taken, Pool.freeCount] using room
            fresh
            distinct
            size := agrees.size
            registry := agrees.registry }
        refine ⟨blocks, out, rfl, agrees, released.congr fun b => by rw [tables], ?_⟩
        rintro _ ⟨⟩
        exact hostBalanced

/-- A sequence moves back to the device if enough blocks are free there. -/
theorem swapIn_moves (swapped : c.isSwapped id = true) (hosted : c.host.isSome)
    (room : (c.sequence id).table.length ≤ c.device.freeCount) :
    (swapIn id).Returns c fun moves c' => ∃ blocks, c.SwappedIn c' id blocks ∧
      moves = .ofList ((c.sequence id).table.zip blocks) ∧
      c'.device.freeCount + blocks.length = c.device.freeCount ∧
      c'.device.Balanced (fun b => c.deviceHolders b + blocks.count b) ∧ c'.host.isSome ∧
      ∀ p, c'.host = some p → p.Balanced fun b => c.hostHolders b - (c.hostTable id).count b := by
  obtain ⟨p, host⟩ := Option.isSome_iff_exists.mp hosted
  simp only [swapIn, Action.returns_bind, Action.returns_get, Action.returns_require, swapped,
    true_and, returns_onDevice]
  refine (Pool.allocate_returns pool (Int.natCast_nonneg _) (Int.ofNat_le.mpr room)).weaken ?_
  rintro blocks d ⟨taken, balanced, renewed, rest⟩
  rw [returns_onHost (c := { c with device := d }) host]
  simp only [returns_edit, Action.returns_modify, Action.returns_pure]
  obtain ⟨fresh, distinct⟩ := taken_fresh pool taken
  have length : blocks.length = (c.sequence id).table.length := by
    simpa [taken, Pool.freeCount] using room
  have tables := hostTable_of_swapped swapped
  refine ((hosts p host).release fun b => ?_).weaken ?_
  · rw [← tables]
    exact count_le_hostHolders knows b
  · rintro _ h ⟨released, _⟩
    have back : c.SwappedIn _ id blocks :=
      { replaced := replaced_with knows d (some h) (c.swapped.erase id)
          fun s => { s with table := blocks }
        before := swapped
        swapped := rfl
        length
        fresh
        distinct
        renewed }
    refine ⟨blocks, back, rfl, ?_, balanced, rfl, ?_⟩
    · rw [Pool.freeCount, rest, List.length_drop, Int.toNat_natCast, length]
      exact Nat.sub_add_cancel room
    · rintro _ ⟨⟩
      exact released.congr fun b => by rw [tables]

end Moves

theorem swapOut_returns (sound : c.Sound) (knows : c.Knows id) (device : c.isSwapped id = false)
    (room : c.canSwapOut id = true) :
    (swapOut id).Returns c fun moves c' => c'.Sound ∧ ∃ blocks, c.SwappedOut c' id blocks ∧
      moves = .ofList ((c.sequence id).table.zip blocks) := by
  refine (swapOut_moves knows sound.balanced.device sound.balanced.host device room).weaken ?_
  rintro moves c' ⟨blocks, out, moved, agrees, pool, hosted, host⟩
  exact ⟨out.sound sound agrees pool host hosted, blocks, out, moved⟩

theorem swapIn_returns (sound : c.Sound) (knows : c.Knows id) (swapped : c.isSwapped id = true)
    (room : (c.sequence id).table.length ≤ c.device.freeCount) :
    (swapIn id).Returns c fun moves c' => c'.Sound ∧ ∃ blocks, c.SwappedIn c' id blocks ∧
      moves = .ofList ((c.sequence id).table.zip blocks) := by
  have hosted := sound.filed.swapped_host id (by simpa [isSwapped] using swapped)
  refine (swapIn_moves knows sound.balanced.device sound.balanced.host swapped hosted room).weaken ?_
  rintro moves c' ⟨blocks, back, moved, -, pool, hosted', host⟩
  exact ⟨back.sound sound pool host hosted', blocks, back, moved⟩

end PagedServing.Cache
