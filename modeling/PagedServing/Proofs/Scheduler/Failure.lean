import PagedServing.Proofs.Scheduler.Commitment

/-! # Batches that fail

A batch that failed as a whole ends its sequences. Whoever holds a block that a move of the
batch was to write gives it up, so that no table names a block whose copy may not have
taken place.
-/

namespace PagedServing.Scheduler

variable {s s' s'' : Scheduler} {id : SeqId} {grown : List SeqId} {slack : Prop}

/-- Every sequence was left alone or has no blocks any more, and those for which `must`
    holds have none. -/
structure Dropped (s s' : Scheduler) (must : SeqId → Prop) : Prop where
  carried : s.Carried s'
  others : ∀ id, s'.cache.sequence id = s.cache.sequence id ∧
    s'.cache.isSwapped id = s.cache.isSwapped id ∧ ¬ must id ∨ (s'.cache.sequence id).table = []

theorem Dropped.refl (s : Scheduler) {must : SeqId → Prop} (nobody : ∀ id, ¬ must id) :
    s.Dropped s must :=
  ⟨Carried.refl s, fun id => Or.inl ⟨rfl, rfl, nobody id⟩⟩

theorem Dropped.trans {must must₁ must₂ : SeqId → Prop} (first : s.Dropped s' must₁)
    (second : s'.Dropped s'' must₂)
    (either : ∀ id, s'.cache.sequence id = s.cache.sequence id →
      s'.cache.isSwapped id = s.cache.isSwapped id → must id → must₁ id ∨ must₂ id) :
    s.Dropped s'' must where
  carried := first.carried.trans second.carried
  others id := by
    rcases second.others id with ⟨same₂, swapped₂, spared₂⟩ | table
    · rcases first.others id with ⟨same₁, swapped₁, spared₁⟩ | table
      · refine Or.inl ⟨same₂.trans same₁, swapped₂.trans swapped₁, fun holds => ?_⟩
        exact (either id same₁ swapped₁ holds).elim spared₁ spared₂
      · exact Or.inr (same₂ ▸ table)
    · exact Or.inr table

theorem Dropped.single {must : SeqId → Prop} (carried : s.Carried s')
    (handled : s.cache.Handled s'.cache id) (table : (s'.cache.sequence id).table = [])
    (only : ∀ other, other ≠ id → ¬ must other) : s.Dropped s' must where
  carried := carried
  others other := by
    by_cases same : other = id
    · exact Or.inr (same ▸ table)
    · exact Or.inl ⟨handled.others other same, handled.swapped other same, only other same⟩

theorem Dropped.mono {must must' : SeqId → Prop} (dropped : s.Dropped s' must)
    (fewer : ∀ id, must' id → must id) : s.Dropped s' must' where
  carried := dropped.carried
  others id := by
    rcases dropped.others id with ⟨same, swapped, spared⟩ | table
    · exact Or.inl ⟨same, swapped, fun holds => spared (fewer id holds)⟩
    · exact Or.inr table

theorem failEach_returns (text : String) (ids : List SeqId) :
    ∀ {s : Scheduler}, s.Orderly [] ids slack → ids.Nodup → (∀ id ∈ ids, id ∈ s.running) →
      (failEach text ids).Returns s fun _ s' => s'.Orderly [] [] slack ∧ s.Dropped s' (· ∈ ids) ∧
        s.Turned s' ids ∧ (∀ id ∈ ids, Over s' id (· ≠ .rejected)) ∧
        s.cache.PublishedEach s'.cache ids := by
  induction ids with
  | nil =>
      intro s orderly _ _
      simpa [failEach] using
        ⟨orderly, Dropped.refl s (by simp), Turned.nil s, Cache.PublishedEach.nil s.cache⟩
  | cons id rest ih =>
      intro s orderly distinct running
      have member := running id List.mem_cons_self
      obtain ⟨knows, status⟩ := orderly.lined.running id member
      have placed := orderly.staged.placed id knows List.not_mem_nil
      have progressed := orderly.staged.progressed id knows
      simp only [failEach, Action.returns_bind, returns_look, status, if_true]
      have swapped := (placed.running status).1
      refine (Action.returns_bind.mp (stop_returns orderly distinct member
        (.refl orderly.sound knows) progressed swapped placed)).weaken
        fun _ s₁ finishing => finishing.weaken ?_
      rintro _ s₂ ⟨orderly₂, ended⟩
      have handled₂ : s.cache.Handled s₂.cache id := ended.handled
      rw [List.erase_cons_head] at orderly₂
      obtain ⟨absent, distinct⟩ := List.nodup_cons.mp distinct
      obtain ⟨turned₂, past₂⟩ :=
        ended.turned orderly member (.refl orderly.sound knows) (by decide)
      have others : ∀ other ∈ rest, other ∈ s₂.running := by
        intro other among
        have before := running other (List.mem_cons_of_mem _ among)
        refine (turned₂.stays orderly orderly₂ before ?_).1
        intro same
        exact absent (List.mem_singleton.mp same ▸ among)
      have first : s.Dropped s₂ (· = id) :=
        .single ⟨ended.config, ended.changes⟩ handled₂ ended.table fun _ different => different
      refine (ih orderly₂ distinct others).weaken ?_
      rintro _ s₃ ⟨orderly₃, dropped, turned₃, past₃, published₃⟩
      have published : s.cache.PublishedEach s₃.cache (id :: rest) :=
        .cons ended.gained handled₂ orderly.sound ended.confined published₃ absent
      refine Action.returns_pure.mpr ⟨orderly₃, first.trans dropped fun other _ _ among => by
        simpa using among, turned₂.cons turned₃ absent, fun other among => ?_, published⟩
      rcases List.mem_cons.mp among with rfl | among
      · exact past₂.spared (turned₃.others other absent) turned₃.reduced
      · exact past₃ other among

/-- The blocks of a sequence were to be written by a move from the device. -/
def Doubtful (c : Cache) (targets : List Int) (swapped : Bool) (id : SeqId) : Prop :=
  c.isSwapped id = swapped ∧ touches targets (c.sequence id).table = true

theorem Doubtful.congr {c c' : Cache} {targets : List Int} {swapped : Bool}
    (doubtful : Doubtful c targets swapped id) (same : c'.sequence id = c.sequence id)
    (side : c'.isSwapped id = c.isSwapped id) : Doubtful c' targets swapped id := by
  unfold Doubtful
  rw [side, same]
  exact doubtful

theorem Dropped.cons {targets : List Int} {swapped : Bool} {rest : List SeqId}
    (first : s.Dropped s' fun other => other = id ∧ Doubtful s.cache targets swapped id)
    (others : s'.Dropped s'' fun other => other ∈ rest ∧ Doubtful s'.cache targets swapped other) :
    s.Dropped s'' fun other => other ∈ id :: rest ∧ Doubtful s.cache targets swapped other := by
  refine first.trans others ?_
  rintro other same side ⟨among, doubtful⟩
  rcases List.mem_cons.mp among with rfl | later
  · exact Or.inl ⟨rfl, doubtful⟩
  · exact Or.inr ⟨later, doubtful.congr same side⟩

/-- What becomes of a sequence that gave its blocks up: it is to be computed again. -/
structure Relinquished (c c' : Cache) (id : SeqId) : Prop where
  handled : c.Handled c' id
  changes : c.Changes c'
  status : (c'.sequence id).status = .preempted
  device : c'.isSwapped id = false
  table : (c'.sequence id).table = []
  computed : (c'.sequence id).computed = 0
  length : (c'.sequence id).length = (c.sequence id).length

namespace Relinquished

variable {c c' : Cache} (relinquished : Relinquished c c' id)
include relinquished

theorem progressed : Cache.Progressed (c'.sequence id) where
  natural := Int.le_of_eq relinquished.computed.symm
  computed := relinquished.computed ▸ Int.natCast_nonneg _
  untouched waits := by simp [relinquished.status] at waits

theorem placed (extra : Nat) : c'.Placed id extra slack :=
  .of_bare (by simp [relinquished.status]) relinquished.device relinquished.table extra

end Relinquished

theorem Relinquished.dropped {t : Scheduler} (relinquished : Relinquished s.cache t.cache id)
    (config : t.config = s.config) (journal : Logging.Journal) :
    s.Dropped { t with cache := { t.cache with journal } } (· = id) := by
  have told := relinquished.handled.trans
    (.of_report relinquished.handled.sound relinquished.handled.knows' journal)
  exact .single ⟨config, relinquished.changes.tail (.reported _ journal)⟩ told relinquished.table
    fun _ different => different

/-- A preempted sequence gives up its blocks and is to be computed again. -/
theorem giveUpHost_returns (orderly : s.Orderly [] [] slack) (member : id ∈ s.preempted)
    (swapped : s.cache.isSwapped id = true) {text : String} {next : Action Scheduler Unit}
    {post : Unit → Scheduler → Prop}
    (after : ∀ s', s'.Orderly [] [] slack → s'.preempted = s.preempted → s.Dropped s' (· = id) →
      s.Kept s' →
      (∀ h, s'.cache.device.registry.get? h = s.cache.device.registry.get? h) →
      next.Returns s' post) :
    (onCache (Cache.release id) >>= fun _ => edit id (fun q => { q with computed := 0 }) >>=
      fun _ => report .warning text >>= fun _ => next).Returns s post := by
  obtain ⟨knows, status⟩ := orderly.lined.preempted id member
  have registered := orderly.mem_values .preempted member
  have progressed := orderly.staged.progressed id knows
  simp only [Action.returns_bind, returns_onCache]
  refine (Cache.release_bared orderly.sound knows progressed.computed).weaken fun _ c₁ bared => ?_
  refine edit_returns bared.handled.knows' ⟨rfl, rfl⟩ fun c₂ noted => ?_
  refine report_returns fun journal => ?_
  have self := noted.replaced.self
  have lower : (0 : Int) ≤ (c₁.sequence id).computed := bared.computed ▸ progressed.natural
  have status₂ : (c₂.sequence id).status = (s.cache.sequence id).status := by
    rw [self, ← bared.status]
  -- the release and the note together: the table is empty and nothing counts as computed
  have relinquished : Relinquished s.cache c₂ id := by
    constructor
    case handled => exact bared.handled.trans (.of_noted bared.handled.sound noted)
    case changes => exact bared.changes.tail (.noted noted lower)
    case status => exact status₂.trans status
    case device => exact (Cache.isSwapped_congr noted.swapped id).trans bared.device
    case table => rw [self, ← bared.table]
    case computed => rw [self]
    case length =>
      rw [self, ← Sequence.length_of_account bared.account]
      rfl
  have handled := relinquished.handled
  have computed := relinquished.computed
  have orderly₂ : { s with cache := c₂ }.Orderly [] [] slack :=
    orderly.kept registered handled ⟨rfl, rfl, fun _ => rfl⟩ (fun _ _ => Iff.rfl) status₂
      (fun _ => relinquished.device) relinquished.progressed (relinquished.placed _)
      (relinquished.length ▸ orderly.registered.short id registered List.not_mem_nil)
  refine after _ (orderly₂.reported journal) rfl
    (Relinquished.dropped (t := { s with cache := c₂ }) relinquished rfl journal)
    (.of_spared ⟨rfl, fun _ => .refl _, fun _ among => among, handled.origins⟩ fun other => ?_)
    fun h => ?_
  · by_cases same : other = id
    · subst same
      refine ⟨(noted.account other).trans bared.account, status₂, ?_,
        fun live => absurd status live, fun among => among⟩
      have natural := progressed.natural
      have length := relinquished.length
      show (s.cache.sequence other).uncomputed ≤ (c₂.sequence other).uncomputed
      unfold Sequence.uncomputed
      omega
    · exact .of_same (handled.others other same) fun among => among
  · show c₂.device.registry.get? h = s.cache.device.registry.get? h
    rw [noted.device]
    -- blocks on the host are not published
    refine bared.gained.registry h fun b i publishes => ?_
    simp [publishes.device] at swapped

theorem dropSwappedOut_returns (targets : List Int) (ids : List SeqId) :
    ∀ {s : Scheduler}, s.Orderly [] [] slack → (∀ id ∈ ids, id ∈ s.preempted) →
      (dropSwappedOut targets ids).Returns s fun _ s' => s'.Orderly [] [] slack ∧ s.Kept s' ∧
        (∀ h, s'.cache.device.registry.get? h = s.cache.device.registry.get? h) ∧
        s.Dropped s' fun id => id ∈ ids ∧ Doubtful s.cache targets true id := by
  induction ids with
  | nil =>
      intro s orderly _
      simpa [dropSwappedOut] using ⟨orderly, Thinned.refl s _, Dropped.refl s (by simp)⟩
  | cons id rest ih =>
      intro s orderly preempted
      have same : s.sequence id = s.cache.sequence id := rfl
      have others : ∀ other ∈ rest, other ∈ s.preempted := fun other among =>
        preempted other (List.mem_cons_of_mem _ among)
      rw [dropSwappedOut, Action.returns_bind, Action.returns_get, same]
      dsimp only
      split
      · rename_i doubtful
        refine giveUpHost_returns orderly (preempted id List.mem_cons_self)
          (Bool.and_eq_true_iff.mp doubtful).1 ?_
        intro s₁ orderly₁ queue dropped₁ kept₁ registry₁
        refine (ih orderly₁ (queue ▸ others)).weaken ?_
        rintro _ s₂ ⟨orderly₂, kept₂, registry₂, dropped₂⟩
        exact ⟨orderly₂, kept₁.trans kept₂, fun h => (registry₂ h).trans (registry₁ h),
          (dropped₁.mono fun _ both => both.1).cons dropped₂⟩
      · rename_i spared
        have nothing : s.Dropped s fun other => other = id ∧ Doubtful s.cache targets true id :=
          .refl s fun _ both => spared (Bool.and_eq_true_iff.mpr both.2)
        refine (ih orderly others).weaken ?_
        rintro _ s₂ ⟨orderly₂, kept₂, registry₂, dropped₂⟩
        exact ⟨orderly₂, kept₂, registry₂, nothing.cons dropped₂⟩

/-- A running sequence gives up its blocks before anything is published, and is preempted. -/
theorem giveUpDevice_returns (orderly : s.Orderly [] [] slack) (member : id ∈ s.running) {text : String}
    {next : Action Scheduler Unit} {post : Unit → Scheduler → Prop}
    (after : ∀ s', s'.Orderly [] [] slack → s'.running = s.running.erase id → s.Dropped s' (· = id) →
      next.Returns s' post) :
    (stopRunning id >>= fun _ => edit id (fun q => { q with computed := 0 }) >>= fun _ =>
      onCache (Cache.release id) >>= fun _ => edit id (fun q => { q with status := .preempted }) >>=
      fun _ => modify (fun s => { s with preempted := s.queued id s.preempted }) >>=
      fun _ => report .warning text >>= fun _ => next).Returns s post := by
  obtain ⟨knows, status⟩ := orderly.lined.running id member
  have registered := orderly.mem_values .running member
  have progressed := orderly.staged.progressed id knows
  rw [Action.returns_bind]
  refine (stopRunning_returns member).weaken ?_
  rintro _ _ rfl
  rw [Action.returns_bind]
  refine edit_returns knows ⟨rfl, rfl⟩ fun c₁ first => ?_
  have self₁ := first.replaced.self
  have handled₁ := Cache.Handled.of_noted orderly.sound first
  have computed₁ : (c₁.sequence id).computed = 0 := by rw [self₁]
  rw [Action.returns_bind, returns_onCache]
  refine (Cache.release_bared handled₁.sound handled₁.knows' (by omega)).weaken fun _ c₂ bared => ?_
  rw [Action.returns_bind]
  refine edit_returns bared.handled.knows' ⟨rfl, rfl⟩ fun c₃ third => ?_
  rw [Action.returns_bind, Action.returns_modify, Action.returns_bind]
  refine report_returns fun journal => ?_
  have self₃ := third.replaced.self
  have relinquished : Relinquished s.cache c₃ id := by
    constructor
    case handled => exact (handled₁.trans bared.handled).trans (.of_noted bared.handled.sound third)
    case changes =>
      exact ((Relation.ReflTransGen.single (.noted first progressed.natural)).trans
        bared.changes).tail (.noted third (Int.le_refl _))
    case status => rw [self₃]
    case device => exact (Cache.isSwapped_congr third.swapped id).trans bared.device
    case table => rw [self₃, ← bared.table]
    case computed => rw [self₃, ← computed₁, ← bared.computed]
    case length =>
      have kept := Sequence.length_of_account bared.account
      rw [self₁] at kept
      rw [self₃]
      exact kept
  let s₃ : Scheduler := { s with cache := c₃, running := s.running.erase id }
  have worked : s₃.Orderly [id] [] slack :=
    (orderly.left registered (orderly.lined.leaves .running member rfl)).worked relinquished.handled
      ⟨rfl, rfl, fun _ => rfl⟩ relinquished.progressed fun _ => relinquished.device
  have short := orderly.registered.short id registered List.not_mem_nil
  have orderly₃ := worked.linedUp rfl relinquished.status (queued_perm s₃ id s.preempted)
    (relinquished.placed _) (relinquished.length ▸ short)
  exact after _ (orderly₃.reported journal) rfl
    (Relinquished.dropped (t := { s₃ with preempted := s₃.queued id s.preempted }) relinquished rfl
      journal)

theorem dropSwappedIn_returns (targets : List Int) (ids : List SeqId) :
    ∀ {s : Scheduler}, s.Orderly [] [] slack → ids.Nodup → (∀ id ∈ ids, id ∈ s.running) →
      (dropSwappedIn targets ids).Returns s fun _ s' => s'.Orderly [] [] slack ∧
        s.Dropped s' fun id => id ∈ ids ∧ Doubtful s.cache targets false id := by
  induction ids with
  | nil =>
      intro s orderly _ _
      simpa [dropSwappedIn] using ⟨orderly, Dropped.refl s (by simp)⟩
  | cons id rest ih =>
      intro s orderly distinct running
      have member := running id List.mem_cons_self
      obtain ⟨absent, distinct⟩ := List.nodup_cons.mp distinct
      have others : ∀ other ∈ rest, other ∈ s.running := fun other among =>
        running other (List.mem_cons_of_mem _ among)
      rw [dropSwappedIn, Action.returns_bind, returns_look]
      dsimp only
      split
      · refine giveUpDevice_returns orderly member ?_
        intro s₁ orderly₁ queue dropped₁
        have others₁ : ∀ other ∈ rest, other ∈ s₁.running := by
          intro other among
          have different : other ≠ id := fun same => absent (same ▸ among)
          rw [queue]
          exact (List.mem_erase_of_ne different).mpr (others other among)
        refine (ih orderly₁ distinct others₁).weaken ?_
        rintro _ s₂ ⟨orderly₂, dropped₂⟩
        exact ⟨orderly₂, (dropped₁.mono fun _ both => both.1).cons dropped₂⟩
      · rename_i spared
        have nothing : s.Dropped s fun other => other = id ∧ Doubtful s.cache targets false id :=
          .refl s fun _ both => spared both.2.2
        refine (ih orderly distinct others).weaken ?_
        rintro _ s₂ ⟨orderly₂, dropped₂⟩
        exact ⟨orderly₂, nothing.cons dropped₂⟩

end PagedServing.Scheduler
