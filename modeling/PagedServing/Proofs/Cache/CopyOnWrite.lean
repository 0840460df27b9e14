import PagedServing.Proofs.Cache.Exactness

/-! # Copies before the next write

A table that grows for the next token copies its last block if others hold that too. This protects the
next write as long as the last block is the one that is written to next. A table that was extended
further ahead has its next write elsewhere.
-/

namespace PagedServing.Cache

variable {c c' : Cache} {id : SeqId} {kept given taken : List Int} {copy : Option (Int × Int)}

/-- The block that the next token of a sequence is written to, if the table has it. -/
def nextBlock? (c : Cache) (id : SeqId) : Option Int :=
  (c.sequence id).table[(c.sequence id).length / c.blockSize]?

/-- After a table has grown, the block of the next write has one holder, and it was copied exactly if it
    had others before. -/
structure Protects (c c' : Cache) (id : SeqId) (copy : Option (Int × Int)) : Prop where
  alone : ∃ b, c'.nextBlock? id = some b ∧ c'.device.refs b = 1
  copied : copy.isSome = true ↔ ∃ b, c.nextBlock? id = some b ∧ 1 < c.device.refs b

/-- No block of a table lies behind the one of the next write, or neither the last block nor that one is
    shared. -/
def Unexposed (c : Cache) (id : SeqId) : Prop :=
  (c.sequence id).table.length ≤ (c.sequence id).length / c.blockSize + 1 ∨
    (∀ b, c.nextBlock? id = some b → c.device.refs b = 1) ∧
      ∀ b, (c.sequence id).table.getLast? = some b → c.device.refs b = 1

theorem Tends.refs_pos (tends : Tends id c) {b : Int} (member : b ∈ (c.sequence id).table) :
    0 < c.device.refs b := by
  rw [tends.refs_eq member]
  exact holders_pos_of_mem tends.2.1 (by rwa [deviceTable_of_device tends.2.2])

theorem needsCopy_iff (away : c.isSwapped id = false) : c.needsCopy id = true ↔
    ∃ b, (c.sequence id).table.getLast? = some b ∧ 1 < c.device.refs b ∧
      (c.sequence id).length / c.blockSize < (c.sequence id).table.length := by
  unfold needsCopy
  dsimp only
  cases last : (c.sequence id).table.getLast? with
  | none => simp
  | some b =>
      have behind : ((c.sequence id).length : Int) - ((c.sequence id).table.length - 1) * c.blockSize <
          c.blockSize ↔ (c.sequence id).length / c.blockSize < (c.sequence id).table.length := by
        rw [Nat.div_lt_iff_lt_mul c.blockSize_pos, ← Int.ofNat_lt, Int.sub_mul]
        push_cast
        omega
      simp [away, behind]

theorem nextBlock?_eq_getLast? (next : (c.sequence id).length / c.blockSize < (c.sequence id).table.length)
    (tight : (c.sequence id).table.length ≤ (c.sequence id).length / c.blockSize + 1) :
    c.nextBlock? id = (c.sequence id).table.getLast? := by
  have last : (c.sequence id).length / c.blockSize = (c.sequence id).table.length - 1 := by
    generalize (c.sequence id).length / c.blockSize = place at *
    omega
  rw [nextBlock?, last, List.getLast?_eq_getElem?]

namespace Exchanged

variable (exchanged : c.Exchanged c' id kept given taken)
include exchanged

theorem nextBlock?_eq : c'.nextBlock? id = (kept ++ taken)[(c.sequence id).length / c.blockSize]? := by
  rw [nextBlock?, exchanged.replaced.self, exchanged.replaced.blockSize]
  rfl

theorem refs_add {b : Int} (member : b ∈ (c.sequence id).table) (member' : b ∈ kept ++ taken) :
    c'.device.refs b + given.count b = c.device.refs b := by
  have unheld : b ∉ taken := fun new => by
    have := exchanged.tends.refs_pos member
    rw [exchanged.tends.refs_eq member, exchanged.taken_unheld new] at this
    omega
  have holders := exchanged.holders b
  rw [exchanged.tends'.refs_eq (exchanged.table ▸ member'), exchanged.tends.refs_eq member]
  rwa [List.count_eq_zero_of_not_mem unheld] at holders

theorem refs_taken {b : Int} (new : b ∈ taken) : c'.device.refs b = 1 := by
  have member' : b ∈ (c'.sequence id).table := exchanged.table ▸ List.mem_append_right _ new
  have holders := exchanged.holders b
  have positive := exchanged.tends'.refs_pos member'
  rw [exchanged.tends'.refs_eq member'] at positive ⊢
  rw [exchanged.taken_unheld new, List.count_eq_one_of_mem exchanged.taken_nodup new] at holders
  omega

end Exchanged

theorem isSome_eq_needsCopy {tokens : Int} (copies : copy.toList = (c.copied id).zip taken)
    (count : (taken.length : Int) = c.growth id tokens) : copy.isSome = c.needsCopy id := by
  have given := c.length_copied id
  have length := congrArg List.length copies
  rw [List.length_zip, given] at length
  unfold growth at count
  cases needs : c.needsCopy id <;> cases copy <;> simp [needs] at length count ⊢
  omega

section Grown

variable (exchanged : c.Exchanged c' id kept (c.copied id) taken) (copied : copy.isSome = c.needsCopy id)
include exchanged copied

theorem Unexposed.protects (unexposed : c.Unexposed id)
    (inside : (c.sequence id).length / c.blockSize < (kept ++ taken).length) :
    c.Protects c' id copy := by
  have needs := needsCopy_iff exchanged.tends.2.2
  -- what is written to next is the last block, if one of the two is shared
  have last : ∀ b, 1 < c.device.refs b →
      (c.sequence id).length / c.blockSize < (c.sequence id).table.length →
      (c.nextBlock? id = some b ↔ (c.sequence id).table.getLast? = some b) := by
    intro b shared before
    rcases unexposed with tight | ⟨next, last⟩
    · rw [nextBlock?_eq_getLast? before tight]
    · constructor
      · exact fun same => absurd (next b same) (Nat.ne_of_gt shared)
      · exact fun same => absurd (last b same) (Nat.ne_of_gt shared)
  constructor
  case copied =>
    rw [copied, needs]
    constructor
    · rintro ⟨b, same, shared, before⟩
      exact ⟨b, (last b shared before).mpr same, shared⟩
    · rintro ⟨b, same, shared⟩
      have before := (List.getElem?_eq_some_iff.mp same).1
      exact ⟨b, (last b shared before).mp same, shared, before⟩
  case alone =>
    rw [exchanged.nextBlock?_eq]
    refine ⟨_, List.getElem?_eq_getElem inside, ?_⟩
    by_cases old : (c.sequence id).length / c.blockSize < kept.length
    · rw [List.getElem_append_left old]
      have place : (c.sequence id).table[(c.sequence id).length / c.blockSize]? =
          some kept[(c.sequence id).length / c.blockSize] := by
        rw [exchanged.before, List.getElem?_append_left old, List.getElem?_eq_getElem old]
      have member := List.mem_of_getElem? place
      have before := (List.getElem?_eq_some_iff.mp place).1
      have unneeded : c.needsCopy id = false := by
        refine Bool.eq_false_iff.mpr fun copies => ?_
        obtain ⟨b, same, shared, -⟩ := needs.mp copies
        have given := c.length_copied id
        have length := congrArg List.length exchanged.before
        rw [copies, if_pos rfl] at given
        rw [List.length_append, given] at length
        -- the copied block is the one of the next write, and that is not kept
        have tight := unexposed.resolve_right fun single =>
          absurd (single.2 b same) (Nat.ne_of_gt shared)
        generalize (c.sequence id).length / c.blockSize = place at *
        omega
      have kept := exchanged.refs_add member (List.mem_append_left _ (List.getElem_mem old))
      rw [Cache.copied, unneeded] at kept
      have single : ¬ 1 < c.device.refs _ := fun shared => Bool.eq_false_iff.mp unneeded
        (needs.mpr ⟨_, (last _ shared before).mp place, shared, before⟩)
      have positive := exchanged.tends.refs_pos member
      simp at kept
      omega
    · refine exchanged.refs_taken ?_
      rw [List.getElem_append_right (Nat.not_lt.mp old)]
      exact List.getElem_mem _

theorem Protects.unexposed (protects : c.Protects c' id copy) (distinct : (c.sequence id).table.Nodup) :
    c.Unexposed id := by
  by_cases tight : (c.sequence id).table.length ≤ (c.sequence id).length / c.blockSize + 1
  · exact Or.inl tight
  have needs := needsCopy_iff exchanged.tends.2.2
  have before : (c.sequence id).length / c.blockSize + 1 < (c.sequence id).table.length :=
    Nat.not_le.mp tight
  have given := c.length_copied id
  have length := congrArg List.length exchanged.before
  rw [List.length_append] at length
  -- what is written to next is kept, and it is not the block that is copied
  have old : (c.sequence id).length / c.blockSize < kept.length := by
    generalize (c.sequence id).length / c.blockSize = place at *
    split at given <;> omega
  obtain ⟨b, place, single⟩ := protects.alone
  rw [exchanged.nextBlock?_eq, List.getElem?_append_left old] at place
  have next : c.nextBlock? id = some b := by
    rw [nextBlock?, exchanged.before, List.getElem?_append_left old, place]
  have among := List.mem_of_getElem? place
  have apart : b ∉ c.copied id := fun member =>
    (List.nodup_append.mp (exchanged.before ▸ distinct)).2.2 b among b member rfl
  have alone := exchanged.refs_add (List.mem_of_getElem? next) (List.mem_append_left _ among)
  rw [single, List.count_eq_zero_of_not_mem apart] at alone
  refine Or.inr ⟨fun b' next' => ?_, fun last same => ?_⟩
  · obtain rfl := Option.some.inj (next.symm.trans next')
    exact alone.symm
  · have uncopied : ¬ c.needsCopy id = true := by
      rw [← copied, protects.copied]
      rintro ⟨b', next', shared⟩
      obtain rfl := Option.some.inj (next.symm.trans next')
      omega
    have few : ¬ 1 < c.device.refs last := fun shared =>
      uncopied (needs.mpr ⟨last, same, shared, Nat.lt_of_succ_lt before⟩)
    have positive := exchanged.tends.refs_pos (List.mem_of_getLast? same)
    omega

end Grown

/-- A table that grows for the next token protects it, if no block lies behind that of the next write, or
    if neither of the two blocks that matter is shared. No other table does that names no block twice. -/
theorem copy_protects_iff {created : Cache} {deviceBlocks blockSize hostBlocks : Int} {sharing : Bool}
    (creation : Cache.create deviceBlocks blockSize hostBlocks sharing = .ok created)
    (operated : Operated created c) (knows : c.Knows id) {tokens : Int}
    (more : (c.sequence id).length < tokens) (grown : grow id tokens c = .ok copy c') :
    (c.Unexposed id → c.Protects c' id copy) ∧
      ((c.sequence id).table.Nodup → c.Protects c' id copy → c.Unexposed id) := by
  have tallied := operated.tallied (tallied_of_created creation)
  obtain ⟨away, enough⟩ := (grow_guarded tallied knows tokens).iff.mp ⟨copy, c', grown, trivial⟩
  have tends : Tends id c := ⟨tallied, knows, away⟩
  obtain ⟨kept, taken, exchanged, count, copies, -⟩ := (grow_exchanges tends enough).of_run grown
  have copied := isSome_eq_needsCopy copies count
  have inside : (c.sequence id).length / c.blockSize < (kept ++ taken).length := by
    have covered := (grow_covers tends grown).2
    rw [exchanged.table, exchanged.replaced.blockSize] at covered
    rw [Nat.div_lt_iff_lt_mul c.blockSize_pos]
    exact_mod_cast more.trans_le covered
  exact ⟨fun unexposed => unexposed.protects exchanged copied inside,
    fun distinct protects => protects.unexposed exchanged copied distinct⟩

/-- The fork shares the block that three tokens fill in part, and the sequence copies it. -/
theorem copy_protects_iff_forked : ∃ c, Operated sixBlocks c ∧ (grow 0 4).Returns c fun copy c' =>
    c.Unexposed 0 ∧ copy = some (1, 2) ∧ c.Protects c' 0 copy := by
  let draft : Draft := { prompt := [1, 2, 3], blockSize := 2 }
  have created : Operated sixBlocks sixBlocks := .start
  have covered := (created.next (.create draft) trivial).next
    (.allocate 0) (by decide +kernel)
  have forked := (covered.next (.create draft) trivial).next (.fork 0 1) (by decide +kernel)
  obtain ⟨c, reached, knows, more, few, copy, c', grown, copied⟩ : ∃ c, Operated sixBlocks c ∧
      c.Knows 0 ∧ ((c.sequence 0).length : Int) < 4 ∧
      (c.sequence 0).table.length ≤ (c.sequence 0).length / c.blockSize + 1 ∧
      (grow 0 4).Returns c fun copy _ => copy = some (1, 2) :=
    ⟨_, forked, by decide +kernel, by decide +kernel, by decide +kernel, by decide +kernel⟩
  have unexposed : c.Unexposed 0 := Or.inl few
  exact ⟨c, reached, copy, c', grown, unexposed, copied,
    (copy_protects_iff (by rfl : Cache.create 6 2 6 true = _) reached knows more grown).1 unexposed⟩

/-- A table is extended to three blocks ahead of its three tokens and then forked. Growing for the next
    token copies the third block, which nobody writes to, while the second, which is written to next, is
    left to both. -/
theorem unprotected_ahead :
    let draft : Draft := { prompt := [1, 2, 3], blockSize := 2 }
    let c := ([.create draft, .allocate 0, .grow 0 6, .create draft, .fork 0 1] : List Operation).foldl
      (fun c operation => operation.run.after c) sixBlocks
    (c.sequence 0).length = 3 ∧ (grow 0 4).Returns c fun copy c' => copy = some (2, 3) ∧
      c'.nextBlock? 0 = some 1 ∧ c'.device.refs 1 = 2 ∧ ¬ c.Protects c' 0 copy := by
  intro draft c
  obtain ⟨copy, c', grown, copied, next, shared⟩ : (grow 0 4).Returns c fun copy c' =>
      copy = some (2, 3) ∧ c'.nextBlock? 0 = some 1 ∧ c'.device.refs 1 = 2 := by decide +kernel
  refine ⟨by decide +kernel, copy, c', grown, copied, next, shared, fun protects => ?_⟩
  obtain ⟨b, same, alone⟩ := protects.alone
  obtain rfl := Option.some.inj (next.symm.trans same)
  omega

end PagedServing.Cache
