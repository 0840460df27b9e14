import PagedServing.Proofs.Cache.Tally

/-! # Blocks for blocks

A table changes at its end: some of its last blocks are given up for the oldest free ones. Growing does
this in two stages, a copy and an extension, and each of them returns whenever enough blocks are free.
-/

namespace PagedServing.Cache

variable {c c' c'' : Cache} {id : SeqId} {kept given taken : List Int}

/-- On the device, the sequence `id` gave up the last blocks `given` of its table for the oldest free
    blocks `taken`. -/
structure Exchanged (c c' : Cache) (id : SeqId) (kept given taken : List Int) : Prop where
  before : (c.sequence id).table = kept ++ given
  tends : Tends id c
  tends' : Tends id c'
  replaced : c.Replaced c' id { c.sequence id with table := kept ++ taken }
  swapped : c'.swapped = c.swapped
  free : c.device.free = taken ++ c'.device.free

namespace Exchanged

theorem refl (tends : Tends id c) : c.Exchanged c id (c.sequence id).table [] [] :=
  ⟨(List.append_nil _).symm, tends, tends, by simpa using Replaced.refl tends.2.1, rfl, rfl⟩

theorem table (exchanged : c.Exchanged c' id kept given taken) :
    (c'.sequence id).table = kept ++ taken := by
  rw [exchanged.replaced.self]

theorem extend {more : List Int} (exchanged : c.Exchanged c' id kept given taken)
    (extended : c'.Exchanged c'' id (kept ++ taken) [] more) :
    c.Exchanged c'' id kept given (taken ++ more) where
  before := exchanged.before
  tends := exchanged.tends
  tends' := extended.tends'
  replaced := by
    have both := exchanged.replaced.trans extended.replaced
    rw [exchanged.replaced.self] at both
    simpa using both
  swapped := extended.swapped.trans exchanged.swapped
  free := by rw [exchanged.free, extended.free, List.append_assoc]

section

variable (exchanged : c.Exchanged c' id kept given taken)
include exchanged

theorem freeCount : c'.device.freeCount + taken.length = c.device.freeCount := by
  rw [Pool.freeCount, Pool.freeCount, exchanged.free, List.length_append, Nat.add_comm]

theorem taken_nodup : taken.Nodup := by
  have distinct := exchanged.tends.1.device.free_nodup
  rw [exchanged.free] at distinct
  exact (List.nodup_append.mp distinct).1

theorem taken_unheld {b : Int} (member : b ∈ taken) : c.deviceHolders b = 0 := by
  refine ((exchanged.tends.1.device.mem_free b).mp ?_).2
  rw [exchanged.free]
  exact List.mem_append_left _ member

theorem length_table :
    (c'.sequence id).table.length + given.length = (c.sequence id).table.length + taken.length := by
  rw [exchanged.table, exchanged.before, List.length_append, List.length_append]
  omega

theorem holders (b : Int) :
    c'.deviceHolders b + given.count b = c.deviceHolders b + taken.count b := by
  have change := deviceHolders_replaced exchanged.replaced
    (fun other _ => isSwapped_congr exchanged.swapped other) b
  rw [deviceTable_of_device exchanged.tends.2.2, deviceTable_of_device exchanged.tends'.2.2,
    exchanged.before, exchanged.table, List.count_append, List.count_append] at change
  omega

end

end Exchanged

theorem Tends.refs_eq (tends : Tends id c) {b : Int} (member : b ∈ (c.sequence id).table) :
    c.device.refs b = c.deviceHolders b := by
  have listed : b ∈ c.deviceTable id := by rwa [deviceTable_of_device tends.2.2]
  rw [Pool.refs_eq]
  exact tends.1.device.refs b (tends.1.device.has b (holders_pos_of_mem tends.2.1 listed))

/-- The last block of a sequence is copied if others hold it too. -/
theorem copyLast_exchanges (tends : Tends id c) {source : Int}
    (last : (c.sequence id).table.getLast? = some source) (shared : 1 < c.deviceHolders source)
    (enough : 0 < c.device.freeCount) :
    (copyLast id source).Returns c fun copy c' => ∃ target, copy = (source, target) ∧
      c.Exchanged c' id (c.sequence id).table.dropLast [source] [target] := by
  have before := (List.dropLast_append_getLast? source last).symm
  simp only [copyLast, Action.returns_bind, returns_onDevice, returns_edit, Action.returns_pure]
  refine (Pool.allocateOne_takes tends.1.device enough).weaken ?_
  rintro target p ⟨free, balanced, renewed⟩
  have unheld : c.deviceHolders target = 0 :=
    ((tends.1.device.mem_free target).mp (by simp [free])).2
  -- the copied block keeps another holder, so the free list stays as it is
  have held : ∀ b, [source].count b ≤ c.deviceHolders b := by
    intro b
    by_cases same : b = source
    · subst same
      simpa using Nat.le_of_lt shared
    · simp [Ne.symm same]
  have rest : p.Balanced fun b =>
      (c.deviceHolders b - [source].count b + [target].count b) + [source].count b :=
    balanced.congr fun b => by
      have := held b
      omega
  simp only [Pool.release, Action.returns_forM_cons, Action.returns_forM_nil]
  refine (Pool.releaseOne_recounts rest).weaken ?_
  rintro _ p' ⟨recounted, free'⟩
  have has := balanced.has source (by omega)
  have balanced' : p'.Balanced fun b =>
      c.deviceHolders b - [source].count b + [target].count b :=
    recounted.balanced rest has fun b => by grind
  have kept : c.deviceHolders source - [source].count source + [target].count source ≠ 0 := by
    rw [List.count_singleton_self]
    omega
  rw [if_neg kept] at free'
  have agrees := recounted.agrees
  refine ⟨target, rfl, before, tends, ?_, ?_, rfl, ?_⟩
  · exact tends.exchanged before balanced'
      ((tends.1.findable.of_renewed renewed).of_agrees agrees) rfl
  · exact replaced_with tends.2.1 p' c.host c.swapped
      fun s => { s with table := s.table.dropLast ++ [target] }
  · rw [free, free']
    rfl

theorem supply_exchanges {α : Type} (tends : Tends id c) {missing : Int}
    (enough : missing ≤ c.device.freeCount) (a : α) :
    Action.Returns (do
      if 0 < missing then
        let blocks ← onDevice (Pool.allocate missing)
        edit id fun s => { s with table := s.table ++ blocks }
      return a) c fun a' c' => a' = a ∧
        ∃ ids, c.Exchanged c' id (c.sequence id).table [] ids ∧ ids.length = missing.toNat ∧
          c.device.Renewed c'.device ids := by
  split
  · rename_i positive
    simp only [Action.returns_bind, returns_onDevice, returns_edit, Action.returns_pure]
    refine (Pool.allocate_returns tends.1.device (Int.le_of_lt positive) enough).weaken ?_
    rintro blocks p ⟨taken, balanced, renewed, rest⟩
    refine ⟨trivial, blocks, ⟨(List.append_nil _).symm, tends, ?_, ?_, rfl, ?_⟩, ?_, renewed⟩
    · exact tends.extended balanced (tends.1.findable.of_renewed renewed) rfl
    · exact replaced_with tends.2.1 p c.host c.swapped fun s => { s with table := s.table ++ blocks }
    · rw [taken, rest, List.take_append_drop]
    · rw [taken, List.length_take]
      exact Nat.min_eq_left (Int.toNat_le.mpr enough)
  · rename_i none
    refine Action.returns_pure.mpr ⟨rfl, [], .refl tends, ?_, .refl _⟩
    rw [List.length_nil, Int.toNat_of_nonpos (Int.not_lt.mp none)]

/-- The block that a sequence has to copy before the next write. -/
def copied (c : Cache) (id : SeqId) : List Int :=
  if c.needsCopy id then (c.sequence id).table.getLast?.toList else []

theorem length_copied (c : Cache) (id : SeqId) :
    (c.copied id).length = if c.needsCopy id then 1 else 0 := by
  unfold copied
  split
  · rename_i needs
    unfold needsCopy at needs
    cases last : (c.sequence id).table.getLast? with
    | none => simp [last] at needs
    | some source => rfl
  · rfl

/-- A table grows if the free blocks suffice: first the last block is copied where that is needed, then
    the missing blocks are added. -/
theorem grow_exchanges (tends : Tends id c) {tokens : Int} (enough : c.canAppend id tokens = true) :
    (grow id tokens).Returns c fun copy c' => ∃ kept taken,
      c.Exchanged c' id kept (c.copied id) taken ∧ (taken.length : Int) = c.growth id tokens ∧
        copy.toList = (c.copied id).zip taken ∧
        (c.needsCopy id = false → c.device.Renewed c'.device taken) := by
  have room : c.growth id tokens ≤ c.device.freeCount := of_decide_eq_true enough
  simp only [grow, Action.returns_bind, Action.returns_get, Action.returns_require, tends.2.2, enough,
    Bool.not_false, true_and]
  cases needs : c.needsCopy id with
  | false =>
      have growth : c.growth id tokens =
          max 0 (c.blocksFor tokens - (c.sequence id).table.length) := by simp [growth, needs]
      have supplied := supply_exchanges tends (a := (none : Option (Int × Int)))
        (show c.blocksFor tokens - (c.sequence id).table.length ≤ c.device.freeCount by omega)
      have known : ∀ copy c', (copy = none ∧ ∃ ids, c.Exchanged c' id (c.sequence id).table [] ids ∧
          ids.length = (c.blocksFor tokens - (c.sequence id).table.length).toNat ∧
            c.device.Renewed c'.device ids) → ∃ kept taken,
          c.Exchanged c' id kept (c.copied id) taken ∧ (taken.length : Int) = c.growth id tokens ∧
            copy.toList = (c.copied id).zip taken ∧
            (false = false → c.device.Renewed c'.device taken) := by
        rintro copy c' ⟨rfl, ids, exchanged, count, renewed⟩
        refine ⟨_, ids, by simpa [copied, needs] using exchanged, ?_, by simp [copied, needs],
          fun _ => renewed⟩
        rw [count, growth]
        omega
      cases (c.sequence id).table.getLast? with
      | none => exact supplied.weaken known
      | some last => exact supplied.weaken known
  -- the copy takes one block, and what is missing is taken after it
  | true =>
      have growth : c.growth id tokens =
          max 0 (c.blocksFor tokens - (c.sequence id).table.length) + 1 := by simp [growth, needs]
      have needs' := needs
      unfold needsCopy at needs
      cases last : (c.sequence id).table.getLast? with
      | none => simp [last] at needs
      | some source =>
          simp only [last, Bool.and_eq_true, decide_eq_true_eq] at needs
          have shared := needs.1.2
          rw [tends.refs_eq (List.mem_of_getLast? last)] at shared
          simp only [if_true, Action.returns_bind, Action.returns_map]
          refine (copyLast_exchanges tends last shared (by omega)).weaken ?_
          rintro copy c₁ ⟨target, rfl, exchanged⟩
          have fewer := exchanged.freeCount
          refine (supply_exchanges exchanged.tends' (by simp at fewer; omega) _).weaken ?_
          rintro copy c' ⟨rfl, ids, exchanged', count, -⟩
          rw [exchanged.table] at exchanged'
          refine ⟨_, _, by simpa [copied, needs', last] using exchanged.extend exchanged', ?_, ?_, ?_⟩
          · rw [List.length_cons, Nat.cast_succ, count, growth]
            omega
          · simp [copied, needs', last]
          · simp

end PagedServing.Cache
