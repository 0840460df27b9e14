import PagedServing.Proofs.Cache.Accounting
import PagedServing.Proofs.Cache.Blockwise
import PagedServing.Proofs.Cache.Exchange

/-! # What is foreseen exactly

Before a sequence gets or moves blocks, the cache can be asked whether it will. In every state that is
reached the answer is right. An operation that meets a fault is refused before anything has happened,
although it would go through several stages.
-/

namespace PagedServing

namespace Action

variable {σ α : Type} {act : Action σ α} {s : σ} {condition : Prop}

/-- The action returns if the condition holds, and otherwise it is refused before anything happens. -/
structure Guarded (act : Action σ α) (s : σ) (condition : Prop) : Prop where
  returns : condition → act.Returns s fun _ _ => True
  refuses : ¬ condition → act.Fails s fun _ t => t = s

namespace Guarded

theorem iff (guarded : act.Guarded s condition) : act.Returns s (fun _ _ => True) ↔ condition := by
  refine ⟨fun ⟨a, t, run, _⟩ => ?_, guarded.returns⟩
  by_contra missing
  obtain ⟨fault, t', run', _⟩ := guarded.refuses missing
  rw [run] at run'
  cases run'

theorem unchanged (guarded : act.Guarded s condition) {fault : Fault} {t : σ}
    (failed : act s = .error fault t) : t = s := by
  by_cases holds : condition
  · obtain ⟨a, t', run, _⟩ := guarded.returns holds
    rw [failed] at run
    cases run
  · obtain ⟨fault', t', run, same⟩ := guarded.refuses holds
    rw [failed] at run
    cases run
    exact same

end Guarded

end Action

theorem Pool.allocate_refuses {p : Pool} {n : Int} (few : (p.freeCount : Int) < n) :
    (Pool.allocate n).Fails p fun _ q => q = p := by
  have natural : ¬ n < 0 := by omega
  simp [Pool.allocate, Action.fails_bind, natural, few]

namespace Cache

variable {c c' : Cache} {id : SeqId}

theorem fails_onHost {α : Type} {act : Action Pool α} {post : Fault → Cache → Prop} {p : Pool}
    (host : c.host = some p) : (onHost act).Fails c post ↔
      act.Fails p fun fault p => post fault { c with host := some p } := by
  have same : (onHost act).Fails c post ↔
      (Action.within (fun _ => p) (fun c p => { c with host := some p }) act).Fails c post := by
    simp only [Action.Fails, onHost, host]
  rw [same, Action.fails_within]

theorem le_of_blocksFor_le (c : Cache) {tokens blocks : Int} (covered : c.blocksFor tokens ≤ blocks) :
    tokens ≤ blocks * c.blockSize := by
  have positive : (0 : Int) < c.blockSize := Int.ofNat_lt.mpr c.blockSize_pos
  have last := Int.lt_mul_ediv_self_add (x := tokens + c.blockSize - 1) positive
  have whole : c.blocksFor tokens * c.blockSize ≤ blocks * c.blockSize :=
    Int.mul_le_mul_of_nonneg_right covered positive.le
  rw [blocksFor, Int.mul_comm] at whole
  omega

/-- How far the sequence `id` of `c` is covered in `c'`, after `k` blocks. -/
structure Reaches (c c' : Cache) (id : SeqId) (k : Nat) (chain : Chain) : Prop where
  tends : Tends id c'
  replaced : ∃ table, c.Replaced c' id { c.sequence id with table }
  chained : hashFits chain.hash = true
  free : c.device.freeCount ≤ c'.device.freeCount + k

theorem Reaches.round {k : Nat} {chain : Chain} (reaches : c.Reaches c' id k chain)
    (fits : ∀ t ∈ (c.sequence id).tokens, tokenFits t = true)
    (inside : k < (c.sequence id).blockCount)
    (enough : (c.sequence id).blockCount ≤ c.device.freeCount) :
    (coverBlock id chain k).Returns c' fun chain' c'' => c.Reaches c'' id (k + 1) chain' := by
  obtain ⟨table, replaced⟩ := reaches.replaced
  have block : (c'.sequence id).block k =
      .ok (blockOf (c.sequence id).blockSize (c.sequence id).tokens k) := by
    rw [replaced.self]
    exact Sequence.block_eq inside
  obtain ⟨hash, next, chained⟩ : ∃ hash, c'.NextHash chain
      (blockOf (c.sequence id).blockSize (c.sequence id).tokens k) hash ∧ hashFits hash = true := by
    unfold NextHash
    split
    · exact blockHash_fits reaches.chained fun t member => fits t (mem_of_mem_blockOf member)
    · exact ⟨noHash, rfl, rfl⟩
  have free := reaches.free
  refine (coverBlock_covers reaches.tends block next fun _ => by omega).weaken ?_
  rintro chain' c'' ⟨b, covers⟩
  refine ⟨covers.tends, ⟨table ++ [b], ?_⟩, ?_, ?_⟩
  · have both := replaced.trans covers.replaced
    rw [replaced.self] at both
    exact both
  · cases served : c'.served? chain hash _ with
    | none => rw [(covers.miss served).2]; exact chained
    | some b' => rw [(covers.hit b' served).2.2]; exact chained
  · have := covers.freeCount
    omega

theorem allocateShared_succeeds (tends : Tends id c)
    (fits : ∀ t ∈ (c.sequence id).tokens, tokenFits t = true)
    (enough : (c.sequence id).blockCount ≤ c.device.freeCount) :
    (allocateShared id).Returns c fun _ _ => True := by
  have start : c.Reaches c id 0 {} := ⟨tends, ⟨_, .refl tends.2.1⟩, rfl, Nat.le_refl _⟩
  simp only [allocateShared, Action.returns_bind, returns_look, returns_edit]
  refine (Action.returns_foldlM_range (fun k chain c' => c.Reaches c' id k chain) start ?_).weaken
    fun _ _ _ => trivial
  exact fun k chain c' inside reaches => reaches.round fits inside enough

theorem allocate_guarded (tallied : c.Tallied) (knows : c.Knows id)
    (fits : ∀ t ∈ (c.sequence id).tokens, tokenFits t = true) :
    (allocate id).Guarded c ((c.sequence id).table = [] ∧ c.canAllocate id = true) := by
  constructor
  · rintro ⟨bare, enough⟩
    have tends := tallied.tends_of_bare knows bare
    have few : (c.sequence id).blockCount ≤ c.device.freeCount := of_decide_eq_true enough
    simp only [allocate, Action.returns_bind, Action.returns_get, Action.returns_require, bare,
      List.isEmpty_nil, enough, true_and]
    split
    · exact allocateShared_succeeds tends fits few
    · simp only [allocateFresh, Action.returns_bind, returns_look, returns_onDevice, returns_edit]
      exact (Pool.allocate_returns tallied.device (Int.natCast_nonneg _) (Int.ofNat_le.mpr few)).weaken
        fun _ _ _ => trivial
  · intro missing
    by_cases bare : (c.sequence id).table = []
    · have few : c.canAllocate id = false := by simpa [bare] using missing
      simp [allocate, Action.fails_bind, bare, few]
    · simp [allocate, Action.fails_bind, bare]

theorem grow_guarded (tallied : c.Tallied) (knows : c.Knows id) (tokens : Int) :
    (grow id tokens).Guarded c (c.isSwapped id = false ∧ c.canAppend id tokens = true) := by
  constructor
  · rintro ⟨away, enough⟩
    exact (grow_exchanges ⟨tallied, knows, away⟩ enough).weaken fun _ _ _ => trivial
  · intro missing
    cases away : c.isSwapped id with
    | true => simp [grow, Action.fails_bind, away]
    | false =>
        have few : c.canAppend id tokens = false := by simpa [away] using missing
        simp [grow, Action.fails_bind, away, few]

theorem grow_covers (tends : Tends id c) {tokens : Int} {copy : Option (Int × Int)}
    (grown : grow id tokens c = .ok copy c') :
    c'.device.freeCount + c.growth id tokens = c.device.freeCount ∧
      tokens ≤ (c'.sequence id).table.length * c'.blockSize := by
  have enough := ((grow_guarded tends.1 tends.2.1 tokens).iff.mp ⟨copy, c', grown, trivial⟩).2
  obtain ⟨kept, taken, exchanged, count, -⟩ := (grow_exchanges tends enough).of_run grown
  have free := exchanged.freeCount
  have foreseen : c.growth id tokens =
      max 0 (c.blocksFor tokens - (c.sequence id).table.length) + (c.copied id).length := by
    rw [growth, c.length_copied id]
    split <;> rfl
  have table := exchanged.length_table
  refine ⟨by omega, ?_⟩
  rw [exchanged.replaced.blockSize]
  refine c.le_of_blocksFor_le ?_
  omega

theorem swapOut_guarded (tallied : c.Tallied) (knows : c.Knows id) :
    (swapOut id).Guarded c (c.isSwapped id = false ∧ c.canSwapOut id = true) := by
  constructor
  · rintro ⟨away, room⟩
    exact (swapOut_moves knows tallied.device tallied.host away room).weaken fun _ _ _ => trivial
  · intro missing
    cases host : c.host with
    | none => simp [swapOut, Action.fails_bind, host]
    | some p =>
        cases away : c.isSwapped id with
        | true => simp [swapOut, Action.fails_bind, host, away]
        | false =>
            have few : p.freeCount < (c.sequence id).table.length := by
              simpa [canSwapOut, host, away] using missing
            have refused : (onHost (Pool.allocate (c.sequence id).table.length)).Fails c
                fun _ c' => c' = c := by
              refine (fails_onHost host).mpr ?_
              obtain ⟨fault, q, run, same⟩ := Pool.allocate_refuses (Int.ofNat_lt.mpr few)
              exact ⟨fault, q, run, by simp only [same, ← host]⟩
            simp [swapOut, Action.fails_bind, host, away, refused]

/-- A sequence is back on the device, in as many blocks as before. Nobody shares them. -/
structure Back (c c' : Cache) (id : SeqId) : Prop where
  tends : Tends id c'
  length : (c'.sequence id).table.length = (c.sequence id).table.length
  free : c'.device.freeCount + (c.sequence id).table.length = c.device.freeCount
  blockSize : c'.blockSize = c.blockSize
  alone : c'.needsCopy id = false

theorem swapIn_brings (tallied : c.Tallied) (knows : c.Knows id) (swapped : c.isSwapped id = true)
    (room : (c.sequence id).table.length ≤ c.device.freeCount) :
    (swapIn id).Returns c fun _ c' => c.Back c' id := by
  have hosted := tallied.shelved.host id (by simpa [isSwapped] using swapped)
  refine (swapIn_moves knows tallied.device tallied.host swapped hosted room).run.weaken ?_
  rintro moves c' ⟨run, ids, back, -, free, -⟩
  refine ⟨⟨(swapIn_counts tallied knows).of_ok run, (back.replaced.knows_iff id).mpr knows,
    back.isSwapped_self tallied.shelved.nodup⟩, ?_, back.length ▸ free, back.replaced.blockSize, ?_⟩
  · rw [back.replaced.self]
    exact back.length
  · unfold needsCopy
    rw [back.replaced.self]
    dsimp only
    split
    · rfl
    · rename_i last found
      have single := back.renewed.reset last (List.mem_of_getLast? found)
      simp [Pool.refs_eq, single]

theorem swapIn_guarded (tallied : c.Tallied) (knows : c.Knows id) :
    (swapIn id).Guarded c
      (c.isSwapped id = true ∧ (c.sequence id).table.length ≤ c.device.freeCount) := by
  constructor
  · rintro ⟨swapped, room⟩
    exact (swapIn_brings tallied knows swapped room).weaken fun _ _ _ => trivial
  · intro missing
    cases swapped : c.isSwapped id with
    | false => simp [swapIn, Action.fails_bind, swapped]
    | true =>
        have few : c.device.freeCount < (c.sequence id).table.length := by
          simpa [swapped] using missing
        have refused : (onDevice (Pool.allocate (c.sequence id).table.length)).Fails c
            fun _ c' => c' = c := by
          refine Action.fails_within.mpr ?_
          obtain ⟨fault, _, run, rfl⟩ := Pool.allocate_refuses (Int.ofNat_lt.mpr few)
          exact ⟨fault, c.device, run, rfl⟩
        simp [swapIn, Action.fails_bind, swapped, refused]

theorem swapIn_grow_iff (tallied : c.Tallied) (knows : c.Knows id) (swapped : c.isSwapped id = true)
    (tokens : Int) :
    (do discard (swapIn id); discard (grow id tokens) : Action Cache Unit).Returns c (fun _ _ => True) ↔
      c.canSwapIn id tokens = true := by
  simp only [Action.returns_bind, Action.returns_discard, canSwapIn, decide_eq_true_eq, sup_le_iff,
    Int.ofNat_le]
  have both : ∀ c', c.Back c' id → ((grow id tokens).Returns c' (fun _ _ => True) ↔
      max ((c.sequence id).table.length : Int) (c.blocksFor tokens) ≤ c.device.freeCount) := by
    intro c' back
    have same : c'.blocksFor tokens = c.blocksFor tokens := by rw [blocksFor, blocksFor, back.blockSize]
    have free := back.free
    rw [(grow_guarded back.tends.1 back.tends.2.1 tokens).iff, canAppend, growth, back.alone, same,
      back.length, decide_eq_true_eq]
    simp only [back.tends.2.2, true_and, Bool.false_eq_true, if_false]
    omega
  constructor
  · rintro ⟨moves, c', run, grown⟩
    have room := ((swapIn_guarded tallied knows).iff.mp ⟨moves, c', run, trivial⟩).2
    have back := (swapIn_brings tallied knows swapped room).of_run run
    simpa using (both c' back).mp grown
  · rintro ⟨room, covered⟩
    exact (swapIn_brings tallied knows swapped room).weaken fun _ c' back =>
      (both c' back).mpr (by simp [room, covered])

/-- What can be asked about a sequence is answered exactly, and operations that meet a fault change
    nothing. -/
structure Foreseen (c : Cache) (id : SeqId) : Prop where
  allocate : c.isSwapped id = false → (c.sequence id).table = [] →
    ((Cache.allocate id).Returns c (fun _ _ => True) ↔ c.canAllocate id = true)
  grow : c.isSwapped id = false → ∀ tokens,
    ((Cache.grow id tokens).Returns c (fun _ _ => True) ↔ c.canAppend id tokens = true)
  /-- Growing takes the foreseen number of free blocks, and the table covers the tokens then. -/
  grown : c.isSwapped id = false → ∀ tokens copy c', Cache.grow id tokens c = .ok copy c' →
    c'.device.freeCount + c.growth id tokens = c.device.freeCount ∧
      tokens ≤ (c'.sequence id).table.length * c'.blockSize
  swapOut : c.isSwapped id = false →
    ((Cache.swapOut id).Returns c (fun _ _ => True) ↔ c.canSwapOut id = true)
  swapIn : c.isSwapped id = true → ∀ tokens,
    ((do discard (Cache.swapIn id); discard (Cache.grow id tokens) : Action Cache Unit).Returns c
      (fun _ _ => True) ↔ c.canSwapIn id tokens = true)
  unchanged : ∀ fault c', Cache.allocate id c = .error fault c' ∨
    (∃ tokens, Cache.grow id tokens c = .error fault c') ∨ Cache.swapOut id c = .error fault c' ∨
    Cache.swapIn id c = .error fault c' → c' = c

/-- In every state of a cache that is reached by its operations, whatever comes of them, capacity is
    foreseen exactly. -/
theorem capacity_foreseen {created : Cache} {deviceBlocks blockSize hostBlocks : Int} {sharing : Bool}
    (creation : Cache.create deviceBlocks blockSize hostBlocks sharing = .ok created)
    (operated : Operated created c) (knows : c.Knows id)
    (fits : ∀ t ∈ (c.sequence id).tokens, tokenFits t = true) : c.Foreseen id := by
  have tallied := operated.tallied (tallied_of_created creation)
  have allocated := allocate_guarded tallied knows fits
  have swappedOut := swapOut_guarded tallied knows
  constructor
  case allocate => exact fun _ bare => allocated.iff.trans (and_iff_right bare)
  case grow => exact fun away tokens => (grow_guarded tallied knows tokens).iff.trans (and_iff_right away)
  case grown => exact fun away tokens copy c' => grow_covers ⟨tallied, knows, away⟩
  case swapOut => exact fun away => swappedOut.iff.trans (and_iff_right away)
  case swapIn => exact fun swapped => swapIn_grow_iff tallied knows swapped
  case unchanged =>
    rintro fault c' (failed | ⟨tokens, failed⟩ | failed | failed)
    · exact allocated.unchanged failed
    · exact (grow_guarded tallied knows tokens).unchanged failed
    · exact swappedOut.unchanged failed
    · exact (swapIn_guarded tallied knows).unchanged failed

/-- A fork shares a block that is not full: four tokens take a copy of it, twelve take more blocks than
    there are. -/
theorem capacity_foreseen_forked : ∃ c, Operated sixBlocks c ∧ c.Foreseen 1 ∧ c.isSwapped 1 = false ∧
    c.growth 1 4 = 1 ∧ c.canAppend 1 4 = true ∧ c.canAppend 1 12 = false := by
  let draft : Draft := { prompt := [1, 2, 3], blockSize := 2 }
  have created : Operated sixBlocks sixBlocks := .start
  have covered := (created.next (.create draft) trivial).next
    (.allocate 0) (by decide +kernel)
  have forked := (covered.next (.create draft) trivial).next (.fork 0 1) (by decide +kernel)
  exact ⟨_, forked, capacity_foreseen (by rfl : Cache.create 6 2 6 true = _) forked
    (by decide +kernel) (by decide +kernel), by decide +kernel, by decide +kernel, by decide +kernel,
    by decide +kernel⟩

end Cache

end PagedServing
