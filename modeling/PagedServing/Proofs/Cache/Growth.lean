import PagedServing.Proofs.Cache.Allocation

/-! # Growing a table

A table grows by new blocks only. No block ever has to be copied before a write: the block
that is written to next is not full, and a block that several sequences hold is.
-/

namespace PagedServing.Cache

variable {c c' : Cache} {id : SeqId}

/-- What growing a table does. -/
structure Grown (c c' : Cache) (id : SeqId) (blocks : List Int) : Prop where
  replaced : c.Replaced c' id { c.sequence id with table := (c.sequence id).table ++ blocks }
  swapped : c'.swapped = c.swapped
  host : c'.host = c.host
  size : c'.device.size = c.device.size
  free : c'.device.freeCount + blocks.length = c.device.freeCount
  supplied : c.Supplied c'

/-- The last block of a sequence is full if others hold it too. -/
theorem needsCopy_eq_false (labelled : c.Labelled) (pool : c.device.Balanced c.deviceHolders)
    (id : SeqId) : c.needsCopy id = false := by
  unfold needsCopy
  dsimp only
  split
  · rfl
  · rename_i last found
    cases device : c.isSwapped id with
    | true => simp
    | false =>
        have table := deviceTable_of_device device
        have place : (c.deviceTable id)[(c.sequence id).table.length - 1]? = some last := by
          rw [table, ← List.getLast?_eq_getElem?, found]
        have has := has_of_mem pool (List.mem_of_getElem? place)
        have refs := (Pool.refs_eq c.device last).trans (pool.refs last has)
        have filled : 0 < (c.sequence id).table.length :=
          List.length_pos_of_mem (List.mem_of_getLast? found)
        by_cases plain : (c.device.entry last).hash = noHash
        · have alone := labelled.unshared last has plain
          simp [refs, Nat.not_lt.mpr alone]
        · have full := (labelled.chained id _ last place plain).1
          rw [Nat.add_mul, Nat.one_mul] at full
          have full : (((c.sequence id).table.length - 1 : Nat) * c.blockSize + c.blockSize : Int) ≤
              (c.sequence id).length := by exact_mod_cast full
          rw [Int.ofNat_sub filled] at full
          have : ¬ ((c.sequence id).length : Int) - ((c.sequence id).table.length - 1) * c.blockSize <
              c.blockSize := by
            push_cast at full
            omega
          simp [this]

theorem growth_eq (sound : c.Sound) (id : SeqId) (tokens : Int) :
    c.growth id tokens = max 0 (c.blocksFor tokens - (c.sequence id).table.length) := by
  simp [growth, needsCopy_eq_false sound.labelled sound.balanced.device id]

theorem grow_returns (sound : c.Sound) (knows : c.Knows id) (device : c.isSwapped id = false)
    {tokens : Int} (enough : c.canAppend id tokens = true) :
    (grow id tokens).Returns c fun copy c' => c'.Sound ∧ copy = none ∧
      ∃ blocks, c.Grown c' id blocks ∧ (blocks.length : Int) = c.growth id tokens := by
  have growth := growth_eq sound id tokens
  have room : c.growth id tokens ≤ c.device.freeCount := of_decide_eq_true enough
  let missing := c.blocksFor tokens - (c.sequence id).table.length
  have extending : (if 0 < missing then do
      let blocks ← onDevice (Pool.allocate missing)
      edit id fun s => { s with table := s.table ++ blocks }
      pure none
    else pure none : Action Cache (Option (Int × Int))).Returns c fun copy c' =>
      c'.Sound ∧ copy = none ∧
        ∃ blocks, c.Grown c' id blocks ∧ (blocks.length : Int) = c.growth id tokens := by
    split
    · rename_i positive
      simp only [Action.returns_bind, returns_onDevice, returns_edit, Action.returns_pure]
      have few : missing ≤ c.device.freeCount := by omega
      refine (Pool.allocate_returns sound.balanced.device (Int.le_of_lt positive) few).weaken ?_
      rintro blocks p ⟨taken, balanced, renewed, rest⟩
      have free : ∀ b ∈ blocks, b ∈ c.device.free := fun b member =>
        List.mem_of_mem_take (taken ▸ member)
      have distinct : blocks.Nodup := taken ▸ sound.balanced.device.free_nodup.take
      have replaced := replaced_with knows p c.host c.swapped
        fun s => { s with table := s.table ++ blocks }
      have supplied : c.Supplied { c with device := p, sequences := c.sequences.update id fun s =>
          { s with table := s.table ++ blocks } } := by
        refine .of_renewed renewed (fun b member => ?_) ?_
        · exact ((sound.balanced.device.mem_free b).mp (free b member)).2
        · exact deviceHolders_le_extended device rfl replaced
      have count : blocks.length = missing.toNat := by
        unfold Pool.freeCount at few
        rw [taken, List.length_take]
        omega
      have left : p.freeCount + blocks.length = c.device.freeCount := by
        unfold Pool.freeCount at few ⊢
        rw [rest, List.length_drop, count]
        omega
      refine ⟨sound.extended device rfl replaced rfl balanced renewed free distinct, trivial, blocks,
        ⟨replaced, rfl, rfl, renewed.size, left, supplied⟩, ?_⟩
      rw [count, growth]
      omega
    · refine Action.returns_pure.mpr ⟨sound, rfl, [], ⟨?_, rfl, rfl, rfl, rfl, .refl c⟩, ?_⟩
      · simpa using Replaced.refl knows
      · simp only [List.length_nil, growth]
        omega
  simp only [grow, Action.returns_bind, Action.returns_get, Action.returns_require, device, enough,
    Bool.not_false, true_and, needsCopy_eq_false sound.labelled sound.balanced.device id]
  cases (c.sequence id).table.getLast? with
  | none => simpa only [pure_bind] using extending
  | some last => simpa only [Bool.false_eq_true, if_false, pure_bind] using extending

end PagedServing.Cache
