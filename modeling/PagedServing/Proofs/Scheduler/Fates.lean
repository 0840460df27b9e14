import PagedServing.Proofs.Scheduler.Lines

/-! # What becomes of sequences

Apart from planning, an operation ends some sequences, gives some a token and leaves the rest
alone. No sequence joins a queue by that.
-/

namespace PagedServing.Scheduler

variable {s s' s'' : Scheduler} {id : SeqId} {ids : List SeqId} {allowed : FinishReason → Prop}

/-- A sequence has ended for an allowed reason, and is no request. -/
structure Over (s : Scheduler) (id : SeqId) (allowed : FinishReason → Prop) : Prop where
  terminal : (s.cache.sequence id).status.isTerminal = true
  reason : ∃ reason, (s.cache.sequence id).finishReason = some reason ∧ allowed reason
  unregistered : id ∉ s.requests.values

/-- Nothing happened to a sequence, but that less of it counts as computed if it is
    preempted. -/
structure Spared (s s' : Scheduler) (id : SeqId) : Prop where
  account : (s'.cache.sequence id).account = (s.cache.sequence id).account
  status : (s'.cache.sequence id).status = (s.cache.sequence id).status
  uncomputed : (s.cache.sequence id).uncomputed ≤ (s'.cache.sequence id).uncomputed
  kept : (s.cache.sequence id).status ≠ .preempted → s'.cache.sequence id = s.cache.sequence id
  registered : id ∈ s.requests.values → id ∈ s'.requests.values

/-- A sequence got a token and goes on. -/
structure WentOn (q q' : Sequence) : Prop where
  status : q'.status = .running
  completion : ∃ token, q'.completion = q.completion ++ [token]
  uncomputed : q'.uncomputed = 1
  below : q'.completion.length < q'.sampling.maxTokens

/-- No sequence joins a queue, and no request comes up. -/
structure Reduced (s s' : Scheduler) : Prop where
  config : s'.config = s.config
  queues : ∀ status, (s'.queueOf status).Sublist (s.queueOf status)
  requests : ∀ id ∈ s'.requests.values, id ∈ s.requests.values
  origins : ∀ id, (s'.cache.sequence id).origin = (s.cache.sequence id).origin

/-- Some requests have ended for an allowed reason, and nothing happened to the other
    sequences. -/
structure Thinned (s s' : Scheduler) (allowed : FinishReason → Prop) : Prop where
  reduced : s.Reduced s'
  each : ∀ id, Spared s s' id ∨ Over s' id allowed
  others : ∀ id, id ∉ s.requests.values → Spared s s' id

/-- Nothing happened to any sequence. -/
abbrev Kept (s s' : Scheduler) : Prop :=
  s.Thinned s' fun _ => False

/-- A sequence has ended, or got a token and goes on. -/
def HadTurn (s s' : Scheduler) (id : SeqId) : Prop :=
  Over s' id (· ≠ .rejected) ∨ WentOn (s.cache.sequence id) (s'.cache.sequence id)

/-- The sequences `ids` had their turn. -/
structure Turned (s s' : Scheduler) (ids : List SeqId) : Prop where
  reduced : s.Reduced s'
  others : ∀ id, id ∉ ids → Spared s s' id
  each : ∀ id ∈ ids, HadTurn s s' id

theorem Over.mono {allowed' : FinishReason → Prop} (past : Over s id allowed)
    (more : ∀ reason, allowed reason → allowed' reason) : Over s id allowed' := by
  obtain ⟨terminal, ⟨reason, found, holds⟩, unregistered⟩ := past
  exact ⟨terminal, ⟨reason, found, more reason holds⟩, unregistered⟩

theorem Reduced.refl (s : Scheduler) : s.Reduced s :=
  ⟨rfl, fun _ => .refl _, fun _ member => member, fun _ => rfl⟩

theorem Reduced.trans (first : s.Reduced s') (second : s'.Reduced s'') : s.Reduced s'' where
  config := second.config.trans first.config
  queues status := (second.queues status).trans (first.queues status)
  requests id member := first.requests id (second.requests id member)
  origins id := (second.origins id).trans (first.origins id)

theorem Spared.of_same (same : s'.cache.sequence id = s.cache.sequence id)
    (registered : id ∈ s.requests.values → id ∈ s'.requests.values) : Spared s s' id := by
  refine ⟨?_, ?_, ?_, fun _ => same, registered⟩
  · rw [same]
  · rw [same]
  · rw [same]

theorem Spared.refl (s : Scheduler) (id : SeqId) : Spared s s id :=
  .of_same rfl fun member => member

theorem Spared.trans (first : Spared s s' id) (second : Spared s' s'' id) : Spared s s'' id := by
  constructor
  case account => exact second.account.trans first.account
  case status => exact second.status.trans first.status
  case uncomputed => exact first.uncomputed.trans second.uncomputed
  case kept =>
    intro before
    have same := first.kept before
    rw [← same] at before
    exact (second.kept before).trans same
  case registered => exact fun member => second.registered (first.registered member)

theorem Over.spared (past : Over s id allowed) (spared : Spared s s' id)
    (reduced : s.Reduced s') : Over s' id allowed := by
  obtain ⟨terminal, reason, unregistered⟩ := past
  have same := spared.kept fun preempted => by simp [preempted, Status.isTerminal] at terminal
  rw [← same] at terminal reason
  exact ⟨terminal, reason, fun member => unregistered (reduced.requests id member)⟩

theorem WentOn.of_account {q q' q'' : Sequence} (wentOn : WentOn q' q'')
    (account : q'.account = q.account) : WentOn q q'' := by
  obtain ⟨status, ⟨token, completion⟩, uncomputed, below⟩ := wentOn
  rw [Sequence.completion_of_account account] at completion
  exact ⟨status, ⟨token, completion⟩, uncomputed, below⟩

theorem Thinned.of_spared (reduced : s.Reduced s') (spared : ∀ id, Spared s s' id) :
    s.Thinned s' allowed :=
  ⟨reduced, fun id => Or.inl (spared id), fun id _ => spared id⟩

theorem Thinned.refl (s : Scheduler) (allowed : FinishReason → Prop) : s.Thinned s allowed :=
  .of_spared (.refl s) (.refl s)

theorem Thinned.trans (first : s.Thinned s' allowed) (second : s'.Thinned s'' allowed) :
    s.Thinned s'' allowed := by
  refine ⟨first.reduced.trans second.reduced, fun id => ?_, fun id absent => ?_⟩
  · rcases second.each id with spared | past
    · rcases first.each id with spared' | past
      · exact Or.inl (spared'.trans spared)
      · exact Or.inr (past.spared spared second.reduced)
    · exact Or.inr past
  · have absent' : id ∉ s'.requests.values := fun member => absent (first.reduced.requests id member)
    exact (first.others id absent).trans (second.others id absent')

theorem Kept.spared (kept : s.Kept s') (id : SeqId) : Spared s s' id := by
  rcases kept.each id with spared | past
  · exact spared
  · obtain ⟨_, _, none⟩ := past.reason
    exact none.elim

/-- What does not touch sequences and queues does not count. -/
theorem Kept.of_unmoved (unmoved : s.Unmoved s')
    (sequences : ∀ id, s'.cache.sequence id = s.cache.sequence id) : s.Kept s' := by
  refine .of_spared ⟨unmoved.config, fun status => ?_, fun id member => ?_, fun id => ?_⟩ fun id => ?_
  · rw [unmoved.queues]
  · exact unmoved.requests ▸ member
  · rw [sequences]
  · exact .of_same (sequences id) fun member => unmoved.requests.symm ▸ member

theorem Thinned.kept (thinned : s.Thinned s' allowed) (kept : s'.Kept s'') :
    s.Thinned s'' allowed :=
  thinned.trans (.of_spared kept.reduced kept.spared)

theorem HadTurn.spared (turn : HadTurn s s' id) (spared : Spared s' s'' id)
    (reduced : s'.Reduced s'') : HadTurn s s'' id := by
  rcases turn with past | wentOn
  · exact Or.inl (past.spared spared reduced)
  · have same := spared.kept (by simp [wentOn.status])
    exact Or.inr (same ▸ wentOn)

theorem HadTurn.of_spared (spared : Spared s s' id) (turn : HadTurn s' s'' id) :
    HadTurn s s'' id := by
  rcases turn with past | wentOn
  · exact Or.inl past
  · exact Or.inr (wentOn.of_account spared.account)

theorem Turned.nil (s : Scheduler) : s.Turned s [] :=
  ⟨.refl s, fun id _ => .refl s id, fun _ none => absurd none List.not_mem_nil⟩

/-- One sequence has its turn after the other. -/
theorem Turned.cons (first : s.Turned s' [id]) (rest : s'.Turned s'' ids) (absent : id ∉ ids) :
    s.Turned s'' (id :: ids) := by
  constructor
  case reduced => exact first.reduced.trans rest.reduced
  case others =>
    intro other outside
    rw [List.mem_cons, not_or] at outside
    obtain ⟨different, outside⟩ := outside
    exact (first.others other (by simpa using different)).trans (rest.others other outside)
  case each =>
    intro other among
    rcases List.mem_cons.mp among with rfl | among
    · exact (first.each other List.mem_cons_self).spared (rest.others other absent) rest.reduced
    · have different : other ∉ [id] := by
        intro same
        exact absent (List.mem_singleton.mp same ▸ among)
      exact .of_spared (first.others other different) (rest.each other among)

/-- Whoever runs and has no turn still runs, and nothing happened to it. -/
theorem Turned.stays {grown grown' : List SeqId} {slack slack' : Prop} (turned : s.Turned s' ids)
    (orderly : s.Orderly [] grown slack) (orderly' : s'.Orderly [] grown' slack')
    (member : id ∈ s.running) (outside : id ∉ ids) : id ∈ s'.running ∧ s'.cache.sequence id = s.cache.sequence id := by
  obtain ⟨_, status⟩ := orderly.lined.running id member
  have spared := turned.others id outside
  have same := spared.kept (by simp [status])
  have registered := spared.registered (orderly.mem_values .running member)
  exact ⟨(orderly'.stands_iff registered .running).mpr (same ▸ status), same⟩

theorem Turned.kept (turned : s.Turned s' ids) (kept : s'.Kept s'') : s.Turned s'' ids where
  reduced := turned.reduced.trans kept.reduced
  others id outside := (turned.others id outside).trans (kept.spared id)
  each id among := (turned.each id among).spared (kept.spared id) kept.reduced

theorem Kept.turned (kept : s.Kept s') (turned : s'.Turned s'' ids) : s.Turned s'' ids where
  reduced := kept.reduced.trans turned.reduced
  others id outside := (kept.spared id).trans (turned.others id outside)
  each id among := .of_spared (kept.spared id) (turned.each id among)

end PagedServing.Scheduler
