import PagedServing.Proofs.Cache.Confinement
import PagedServing.Proofs.Scheduler.Fates
import PagedServing.Scheduler.Requests

/-! # Ending a sequence

A sequence that ends leaves its queue, gives its blocks back and is no request any more.
This never fails for a registered one.
-/

namespace PagedServing.Scheduler

variable {s s' : Scheduler} {id : SeqId} {grown : List SeqId} {slack : Prop}

/-- What ending a sequence does that has left its queue. -/
structure Ended (s s' : Scheduler) (id : SeqId) (reason : FinishReason) : Prop where
  status : (s'.cache.sequence id).status = reason.status
  noted : (s'.cache.sequence id).finishReason = some reason
  table : (s'.cache.sequence id).table = []
  config : s'.config = s.config
  handled : s.cache.Handled s'.cache id
  changes : s.cache.Changes s'.cache
  gained : s.cache.Gained s'.cache (s.cache.Publishes id)
  requests : s'.requests = s.requests.erase (s.cache.sequence id).requestId
  waiting : s'.waiting = s.waiting
  running : s'.running = s.running
  preempted : s'.preempted = s.preempted

theorem device_of_bare {c : Cache} {ahead : Nat} (placed : c.Placed id ahead slack)
    (bare : (c.sequence id).table = []) : c.isSwapped id = false := by
  by_contra swapped
  have least := (placed.swapped (by simpa using swapped)).2.least
  have positive := Sequence.length_pos (c.sequence id)
  have size := (c.sequence id).blockSize_pos
  rw [bare, List.length_nil, Nat.le_zero, Sequence.blocksFor, Nat.div_eq_zero_iff] at least
  omega

theorem Ended.confined {reason : FinishReason} (ended : s.Ended s' id reason) :
    s.cache.Confined s'.cache [id] := by
  refine .of_gained ended.gained ended.handled (Or.inr ?_)
  simp [Cache.deviceTable, ended.table]

theorem isTerminal_status (reason : FinishReason) : reason.status.isTerminal = true := by
  cases reason <;> rfl

/-- What ending a sequence does to the cache. -/
structure Closed (c c' : Cache) (id : SeqId) (reason : FinishReason) : Prop where
  handled : c.Handled c' id
  changes : c.Changes c'
  gained : c.Gained c' (c.Publishes id)
  table : (c'.sequence id).table = []
  device : c'.isSwapped id = false
  status : (c'.sequence id).status = reason.status
  noted : (c'.sequence id).finishReason = some reason
  progressed : Cache.Progressed (c'.sequence id)

/-- The reason of the end is noted, and what was not handed over yet is. -/
theorem closed_of_bared {c c₀ c₁ c₂ : Cache} {reason : FinishReason} {error : Option String}
    {journal : Logging.Journal} (progressed : Cache.Progressed (c.sequence id))
    (bared : c.Bared c₀ id)
    (first : c₀.Noted c₁ id { c₀.sequence id with
      status := reason.status, finishReason := some reason, error })
    (second : { c₁ with journal }.Noted c₂ id (c₁.sequence id).delivered) :
    Closed c c₂ id reason := by
  have self₁ := first.replaced.self
  have self₂ : c₂.sequence id = (c₁.sequence id).delivered := second.replaced.self
  have handled₁ := bared.handled.trans (.of_noted bared.handled.sound first)
  have handled₂ := handled₁.trans (.of_report handled₁.sound handled₁.knows' journal)
  have status : (c₂.sequence id).status = reason.status := by
    rw [self₂, self₁]
    rfl
  have terminal : (c₂.sequence id).status.isTerminal = true := by
    rw [status]
    exact isTerminal_status reason
  have computed : (c₂.sequence id).computed = (c.sequence id).computed := by
    rw [self₂, self₁, ← bared.computed]
    rfl
  have length : (c₂.sequence id).length = (c.sequence id).length := by
    rw [self₂, self₁, ← Sequence.length_of_account bared.account]
    rfl
  refine ⟨handled₂.trans (.of_noted handled₂.sound second), ?_, ?_, ?_, ?_, status, ?_, ?_, ?_, ?_⟩
  · exact ((bared.changes.tail (.noted first (Int.le_refl _))).tail (.reported _ journal)).tail
      (.noted second (Int.le_refl _))
  · exact bared.gained.same (second.device.trans first.device)
  · rw [self₂, self₁, ← bared.table]
    rfl
  · rw [Cache.isSwapped_congr second.swapped, ← bared.device]
    exact Cache.isSwapped_congr first.swapped id
  · rw [self₂, self₁]
    rfl
  · exact computed ▸ progressed.natural
  · rw [computed, length]
    exact progressed.computed
  · exact fun waits => by simp [waits, Status.isTerminal] at terminal

/-- A sequence that is set aside ends, whatever the reason. -/
theorem finish_returns {reason : FinishReason} {error : Option String} {ahead : Nat}
    (orderly : s.Orderly [id] grown slack) (placed : s.cache.Placed id ahead slack) :
    (finish id reason error).Returns s fun _ s' => s'.Orderly [] grown slack ∧ s.Ended s' id reason := by
  have knows := (orderly.lined.apart id List.mem_cons_self).1
  have progressed := orderly.staged.progressed id knows
  -- a sequence without blocks is bare as it is, the others are released
  have baring : (if (!(s.cache.sequence id).table.isEmpty) = true then onCache (Cache.release id)
      else pure () : Action Scheduler Unit).Returns s
        fun _ s' => ∃ c, s' = { s with cache := c } ∧ s.cache.Bared c id := by
    split
    · rw [returns_onCache]
      exact (Cache.release_bared orderly.sound knows progressed.computed).weaken
        fun _ c bared => ⟨c, rfl, bared⟩
    · rename_i empty
      have bare : (s.cache.sequence id).table = [] := by simpa using empty
      refine Action.returns_pure.mpr ⟨s.cache, rfl, .refl, .refl orderly.sound knows, bare,
        device_of_bare placed bare, rfl, rfl, rfl, .none rfl fun _ _ _ publishes => ?_⟩
      have place := publishes.place
      simp [bare] at place
  simp only [finish, Action.returns_bind, returns_look, Action.returns_when]
  refine baring.weaken ?_
  rintro _ s' ⟨c, same, bared⟩
  subst same
  have alike : ∀ q : Sequence, Cache.Alike q { q with
      status := reason.status, finishReason := some reason, error } :=
    fun q => ⟨rfl, rfl⟩
  refine edit_returns bared.handled.knows' (alike _) fun c₁ first => ?_
  simp only [Action.returns_modify]
  refine report_returns fun journal => ?_
  have handled₁ := bared.handled.trans (.of_noted bared.handled.sound first)
  refine edit_returns handled₁.knows' ⟨rfl, rfl⟩ fun c₂ second => ?_
  simp only [Action.returns_pure]
  have closed : Closed s.cache c₂ id reason := closed_of_bared progressed bared first second
  have name : (c₁.sequence id).requestId = (s.cache.sequence id).requestId := handled₁.name
  have worked : { s with cache := c₂ }.Orderly [id] grown slack :=
    orderly.worked closed.handled ⟨rfl, rfl, fun _ => rfl⟩ closed.progressed fun _ => closed.device
  have terminal : (c₂.sequence id).status.isTerminal = true := by
    rw [closed.status]
    exact isTerminal_status reason
  have idle : (c₂.sequence id).status ≠ .running := fun runs => by
    simp [runs, Status.isTerminal] at terminal
  constructor
  · refine worked.retired rfl rfl ?_ (fun _ => rfl) terminal
      (.of_bare idle closed.device closed.table _)
    rw [name, closed.handled.name]
  · exact ⟨closed.status, closed.noted, closed.table, rfl, closed.handled, closed.changes,
      closed.gained, by rw [name], rfl, rfl, rfl⟩

/-- What an operation does that moves no block between the pools. -/
structure Carried (s s' : Scheduler) : Prop where
  config : s'.config = s.config
  changes : s.cache.Changes s'.cache

theorem Carried.refl (s : Scheduler) : s.Carried s :=
  ⟨rfl, .refl⟩

theorem Carried.trans {s'' : Scheduler} (first : s.Carried s') (second : s'.Carried s'') :
    s.Carried s'' :=
  ⟨second.config.trans first.config, first.changes.trans second.changes⟩

theorem Ended.carried {reason : FinishReason} (ended : s.Ended s' id reason) : s.Carried s' :=
  ⟨ended.config, ended.changes⟩

theorem Ended.fate {t : Scheduler} {reason : FinishReason} (ended : t.Ended s' id reason)
    (orderly : s.Orderly [] grown slack) (member : id ∈ s.requests.values)
    (handled : s.cache.Handled t.cache id) (config : t.config = s.config)
    (requests : t.requests = s.requests)
    (queues : ∀ status, t.queueOf status = (s.queueOf status).erase id) :
    s.Reduced s' ∧ (∀ other, other ≠ id → Spared s s' other) ∧ Over s' id (· = reason) := by
  have both := handled.trans ended.handled
  have registered : ∀ other, other ∈ s'.requests.values ↔ other ∈ s.requests.values ∧ other ≠ id := by
    rw [ended.requests, requests, handled.name]
    exact orderly.registered.mem_erase member
  refine ⟨⟨ended.config.trans config, fun status => ?_, fun other among => ?_, both.origins⟩,
    fun other different => ?_, ?_, ⟨reason, ended.noted, rfl⟩, fun among => ?_⟩
  · have same : s'.queueOf status = t.queueOf status := by
      cases status
      case waiting => exact ended.waiting
      case running => exact ended.running
      case preempted => exact ended.preempted
      case finished => rfl
      case cancelled => rfl
    rw [same, queues]
    exact List.erase_sublist
  · exact ((registered other).mp among).1
  · exact .of_same (both.others other different) fun before =>
      (registered other).mpr ⟨before, different⟩
  · rw [ended.status]
    exact isTerminal_status reason
  · exact ((registered id).mp among).2 rfl

theorem Ended.thinned {t : Scheduler} {reason : FinishReason} (ended : t.Ended s' id reason)
    (orderly : s.Orderly [] grown slack) (member : id ∈ s.requests.values) (left : s.Left t id) :
    s.Thinned s' (· = reason) := by
  have handled : s.cache.Handled t.cache id := by
    rw [left.cache]
    exact .refl orderly.sound (orderly.knows member)
  obtain ⟨reduced, others, past⟩ :=
    ended.fate orderly member handled left.config left.requests left.queues
  refine ⟨reduced, fun other => ?_, fun other absent => ?_⟩
  · by_cases same : other = id
    · exact Or.inr (same ▸ past)
    · exact Or.inl (others other same)
  · exact others other fun same => absent (same ▸ member)

theorem without_of_mem {queue : List SeqId} (member : id ∈ queue) :
    without id queue = .ok (queue.erase id) := by
  simp [without, member]

theorem stopRunning_returns (member : id ∈ s.running) :
    (stopRunning id).Returns s fun _ s' => s' = { s with running := s.running.erase id } := by
  simp [stopRunning, without_of_mem member]

theorem leaveQueue_returns (orderly : s.Orderly [] grown slack) (member : id ∈ s.requests.values) :
    (leaveQueue id).Returns s fun _ s' => s.Left s' id := by
  have same : s.sequence id = s.cache.sequence id := rfl
  simp only [leaveQueue, Action.returns_bind, Action.returns_get, same]
  have queued := (orderly.stands_iff member (s.cache.sequence id).status).mpr rfl
  cases status : (s.cache.sequence id).status with
  | waiting =>
      rw [status] at queued
      simp only [Action.returns_bind, Action.returns_ofExcept, Action.returns_set]
      exact ⟨_, without_of_mem queued, orderly.lined.leaves .waiting queued rfl⟩
  | running =>
      rw [status] at queued
      refine (stopRunning_returns queued).weaken ?_
      rintro _ _ rfl
      exact orderly.lined.leaves .running queued rfl
  | preempted =>
      rw [status] at queued
      simp only [Action.returns_bind, Action.returns_ofExcept, Action.returns_set]
      exact ⟨_, without_of_mem queued, orderly.lined.leaves .preempted queued rfl⟩
  | finished =>
      rw [status] at queued
      cases queued
  | cancelled =>
      rw [status] at queued
      cases queued

theorem finish_left {reason : FinishReason} {error : Option String} (orderly : s.Orderly [] grown slack)
    (member : id ∈ s.requests.values) (left : s.Left s' id) :
    (finish id reason error).Returns s' fun _ s'' => s''.Orderly [] grown slack ∧ s'.Ended s'' id reason := by
  have knows : s'.cache.Knows id :=
    ((orderly.left member left).lined.apart id List.mem_cons_self).1
  rw [left.cache] at knows
  have placed := orderly.staged.placed id knows List.not_mem_nil
  rw [← left.cache] at placed
  exact finish_returns (orderly.left member left) placed

theorem finishEach_returns {reason : FinishReason} (ids : List SeqId) :
    ∀ {s : Scheduler}, s.Orderly [] grown slack → ids.Nodup → (∀ id ∈ ids, id ∈ s.requests.values) →
      (finishEach reason ids).Returns s fun _ s' => s'.Orderly [] grown slack ∧ s.Carried s' ∧
        s.Thinned s' (· = reason) ∧
        ∀ id, id ∈ s'.requests.values ↔ id ∈ s.requests.values ∧ id ∉ ids := by
  induction ids with
  | nil =>
      intro s orderly _ _
      simpa [finishEach] using ⟨orderly, Carried.refl s, Thinned.refl s _⟩
  | cons id ids ih =>
      intro s orderly distinct members
      obtain ⟨absent, distinct⟩ := List.nodup_cons.mp distinct
      have member := members id List.mem_cons_self
      simp only [finishEach, Action.returns_bind, Action.returns_pure]
      refine (leaveQueue_returns orderly member).weaken fun _ s₁ left => ?_
      refine (finish_left orderly member left).weaken ?_
      rintro _ s₂ ⟨orderly₂, ended⟩
      have kept : ∀ other, other ∈ s₂.requests.values ↔ other ∈ s.requests.values ∧ other ≠ id := by
        rw [ended.requests, left.requests, left.cache]
        exact orderly.registered.mem_erase member
      refine (ih orderly₂ distinct fun other among => ?_).weaken ?_
      · exact (kept other).mpr ⟨members other (List.mem_cons_of_mem _ among),
          fun same => absent (same ▸ among)⟩
      · rintro _ s₃ ⟨orderly₃, carried, thinned, rest⟩
        have first : s.Carried s₁ := ⟨left.config, left.cache ▸ .refl⟩
        refine ⟨orderly₃, (first.trans ended.carried).trans carried,
          (ended.thinned orderly member left).trans thinned, fun other => ?_⟩
        rw [rest, kept, List.mem_cons]
        tauto

end PagedServing.Scheduler
