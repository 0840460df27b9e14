import PagedServing.Proofs.Scheduler.Progress

/-! # Iterations end

Iterations alone end every request, after no more of them than there are tokens to get. None is
turned down on the way.
-/

namespace PagedServing.Scheduler

variable {ω : Type} {config : Config} {device : Device ω} {s s' : Scheduler} {id : SeqId}

/-- If a sequence has ended, then it was not rejected. -/
def Accepted (s : Scheduler) (id : SeqId) : Prop :=
  (s.sequence id).isFinished = true → (s.sequence id).finishReason ≠ some .rejected

theorem Accepted.of_same (accepted : s.Accepted id)
    (same : s'.cache.sequence id = s.cache.sequence id) : s'.Accepted id := by
  have same : s'.sequence id = s.sequence id := same
  unfold Accepted
  rw [same]
  exact accepted

theorem Accepted.of_live (live : (s.cache.sequence id).status.isTerminal = false) :
    s.Accepted id := by
  intro terminal
  rw [Sequence.isFinished, show s.sequence id = s.cache.sequence id from rfl, live] at terminal
  cases terminal

theorem Accepted.spared (accepted : s.Accepted id) (spared : Spared s s' id) : s'.Accepted id := by
  cases status : (s.cache.sequence id).status with
  | preempted =>
      apply Accepted.of_live
      rw [spared.status, status]
      rfl
  | waiting => exact accepted.of_same (spared.kept (by simp [status]))
  | running => exact accepted.of_same (spared.kept (by simp [status]))
  | finished => exact accepted.of_same (spared.kept (by simp [status]))
  | cancelled => exact accepted.of_same (spared.kept (by simp [status]))

theorem Over.accepted (past : Over s id (· ≠ .rejected)) : s.Accepted id := by
  intro _ rejected
  obtain ⟨reason, noted, fine⟩ := past.reason
  rw [show s.sequence id = s.cache.sequence id from rfl, noted] at rejected
  exact fine (Option.some.inj rejected)

theorem Steady.accepted (steady : s.Steady s') (accepted : s.Accepted id) : s'.Accepted id := by
  cases status : (s'.cache.sequence id).status with
  | running => exact .of_live (by rw [status]; rfl)
  | preempted => exact .of_live (by rw [status]; rfl)
  | waiting => exact accepted.of_same (steady.kept id (by simp [status]) (by simp [status]))
  | finished => exact accepted.of_same (steady.kept id (by simp [status]) (by simp [status]))
  | cancelled => exact accepted.of_same (steady.kept id (by simp [status]) (by simp [status]))

theorem Turned.accepted {ids : List SeqId} (turned : s.Turned s' ids) (accepted : s.Accepted id) :
    s'.Accepted id := by
  by_cases among : id ∈ ids
  · rcases turned.each id among with past | wentOn
    · exact past.accepted
    · apply Accepted.of_live
      rw [wentOn.status]
      rfl
  · exact accepted.spared (turned.others id among)

theorem Driven.Round.accepted {d d' : Driven ω} (round : Driven.Round device d d')
    (accepted : d.scheduler.Accepted id) : d'.scheduler.Accepted id := by
  obtain ⟨_, _, assembled, _, turned⟩ := round
  exact turned.accepted (assembled.steady.accepted accepted)

theorem Thinned.accepted {allowed : FinishReason → Prop} (thinned : s.Thinned s' allowed)
    (fine : ∀ reason, allowed reason → reason ≠ .rejected) (accepted : s.Accepted id) :
    s'.Accepted id := by
  rcases thinned.each id with spared | past
  · exact accepted.spared spared
  · exact (past.mono fine).accepted

theorem Operated.accepted {rules : Rules} (operated : s.Operated rules s')
    (orderly : s.Orderly [] []) (accepted : s.Accepted id) :
    s'.Accepted id ∨ rules.releasing .rejected ∧ id ∈ s.requests.values := by
  cases operated with
  | constructed takes =>
      left
      obtain ⟨_, _, constructed⟩ := create_orderly orderly takes
      by_cases knows : s.cache.Knows id
      · exact accepted.of_same (constructed.others id knows)
      · apply Accepted.of_live
        rw [(constructed.unknown id knows).1]
        rfl
  | taken fresh _ =>
      left
      rcases (add_orderly orderly fresh).2.2 with kept | taken
      · exact accepted.spared (kept.spared id)
      · exact accepted.of_same (taken.sequences id)
  | aborted name =>
      left
      obtain ⟨_, _, _, thinned⟩ := (abort_returns orderly name).after
      exact thinned.accepted (fun _ same => by simp [same]) accepted
  | @released reason may =>
      obtain ⟨_, _, _, thinned, _⟩ := (releaseAll_returns orderly reason).after
      by_cases member : id ∈ s.requests.values
      · by_cases rejected : reason = .rejected
        · exact Or.inr ⟨rejected ▸ may, member⟩
        · exact Or.inl (thinned.accepted (fun _ same => same ▸ rejected) accepted)
      · exact Or.inl (accepted.spared (thinned.others id member))

theorem Reachable.step_accepted (valid : device.Valid) {d : Driven ω}
    (reachable : Reachable config device d) (accepted : d.scheduler.Accepted id) :
    ((Driven.step (some device)).after d).scheduler.Accepted id := by
  have orderly := (reachable.orderly valid).1
  obtain ⟨_, _, _, round⟩ := (Driven.step_round orderly (reachable.paced valid) valid).after
  exact round.accepted accepted

theorem Follows.accepted {rules : Rules} (never : ¬ rules.releasing .rejected)
    (valid : device.Valid) {d : Driven ω} (follows : Follows config device rules d) :
    ∀ id, d.scheduler.Accepted id := by
  induction follows with
  | start threshold w =>
      intro id
      have unknown : ¬ (Scheduler.start config threshold).cache.Knows id := Nat.not_lt_zero id
      apply Accepted.of_live
      rw [Cache.sequence_of_unknown unknown]
      rfl
  | operated before operated ih =>
      have orderly := (before.reachable.orderly valid).1
      exact fun id => (operated.accepted orderly (ih id)).resolve_right fun both => never both.1
  | stepped before ih => exact fun id => before.reachable.step_accepted valid (ih id)

theorem Orderly.live {grown : List SeqId} (orderly : s.Orderly [] grown)
    (member : id ∈ s.requests.values) : (s.cache.sequence id).status.isTerminal = false := by
  have queued := (orderly.stands_iff member (s.cache.sequence id).status).mpr rfl
  cases status : (s.cache.sequence id).status
  case waiting => rfl
  case running => rfl
  case preempted => rfl
  case finished =>
    rw [status] at queued
    cases queued
  case cancelled =>
    rw [status] at queued
    cases queued

theorem isIdle_iff (orderly : s.Orderly [] []) : s.isIdle = true ↔ s.requests.values = [] := by
  have queues : s.isIdle = true ↔ s.waiting = [] ∧ s.running = [] ∧ s.preempted = [] := by
    simp [isIdle, and_assoc]
  rw [queues]
  constructor
  · rintro ⟨waiting, running, preempted⟩
    apply List.eq_nil_iff_forall_not_mem.mpr
    intro id member
    rcases (orderly.registered.mem_values id).mp member with ⟨status, queued⟩ | none
    · cases status
      case waiting => simp [queueOf, waiting] at queued
      case running => simp [queueOf, running] at queued
      case preempted => simp [queueOf, preempted] at queued
      case finished => cases queued
      case cancelled => cases queued
    · cases none
  · intro empty
    have nobody : ∀ status, s.queueOf status = [] := by
      intro status
      apply List.eq_nil_iff_forall_not_mem.mpr
      intro id queued
      have member := orderly.mem_values status queued
      simp [empty] at member
    exact ⟨nobody .waiting, nobody .running, nobody .preempted⟩

theorem Driven.Round.due {d d' : Driven ω} (round : Driven.Round device d d')
    (orderly : d.scheduler.Orderly [] []) (paced : d.scheduler.Paced) :
    (∀ id, d'.scheduler.due id ≤ d.scheduler.due id) ∧ (d.scheduler.requests.values = [] ∨
      ∃ id ∈ d.scheduler.requests.values, d'.scheduler.due id < d.scheduler.due id) := by
  obtain ⟨_, planned, assembled, _, turned⟩ := round
  have due := fun id => assembled.due orderly paced turned id
  refine ⟨fun id => (due id).1, ?_⟩
  cases idle : d.scheduler.isIdle with
  | true => exact Or.inl ((isIdle_iff orderly).mp idle)
  | false =>
      obtain ⟨id, runs⟩ := List.exists_mem_of_ne_nil _ (assembled.some idle)
      have registered : id ∈ d.scheduler.requests.values := by
        rw [← assembled.steady.requests]
        exact planned.orderly.mem_values .running runs
      exact Or.inr ⟨id, registered, (due id).2 (assembled.members.mem_iff.mpr runs) registered⟩

theorem iterate_owed (valid : device.Valid) {d : Driven ω}
    (reachable : Reachable config device d) (count : Nat) :
    (∀ id ∈ (d.iterate device count).scheduler.requests.values,
      id ∈ d.scheduler.requests.values) ∧
    ((d.iterate device count).scheduler.isIdle = true ∨
      (d.iterate device count).scheduler.owed d.scheduler.requests.values + count ≤
        d.scheduler.budget) := by
  induction count with
  | zero =>
      refine ⟨fun _ member => member, Or.inr ?_⟩
      rw [budget_eq]
      exact Int.le_of_eq (Int.add_zero _)
  | succ count ih =>
      obtain ⟨among, progress⟩ := ih
      have orderly := ((reachable.iterate count).orderly valid).1
      have paced := (reachable.iterate count).paced valid
      obtain ⟨_, orderly', paced', round⟩ := (Driven.step_round orderly paced valid).after
      obtain ⟨due, less⟩ := round.due orderly paced
      have fewer : ∀ id ∈ (d.iterate device (count + 1)).scheduler.requests.values,
          id ∈ (d.iterate device count).scheduler.requests.values := fun id member =>
        (due_pos orderly paced).mp (((due_pos orderly' paced').mpr member).trans_le (due id))
      refine ⟨fun id member => among id (fewer id member), ?_⟩
      rcases less with none | ⟨id, registered, less⟩
      · left
        exact (isIdle_iff orderly').mpr
          (values_eq_nil_of_due_le orderly paced orderly' paced' due none)
      · right
        have some : (d.iterate device count).scheduler.isIdle ≠ true := by
          intro idle
          simp [(isIdle_iff orderly).mp idle] at registered
        have before := progress.resolve_left some
        have less : (d.iterate device (count + 1)).scheduler.owed d.scheduler.requests.values <
            (d.iterate device count).scheduler.owed d.scheduler.requests.values :=
          total_map_lt (fun other _ => due other) (among id registered) less
        push_cast
        omega

theorem Reachable.idle_after (valid : device.Valid) {d : Driven ω}
    (reachable : Reachable config device d) {count : Nat} (enough : d.scheduler.budget ≤ count) :
    (d.iterate device count).scheduler.isIdle = true := by
  obtain ⟨among, progress⟩ := iterate_owed valid reachable count
  rcases progress with idle | less
  · exact idle
  · have orderly := ((reachable.iterate count).orderly valid).1
    have paced := (reachable.iterate count).paced valid
    apply (isIdle_iff orderly).mpr
    apply List.eq_nil_iff_forall_not_mem.mpr
    intro id member
    have some := owed_pos orderly paced (among id member) member
    omega

theorem Reachable.accepted_after (valid : device.Valid) {d : Driven ω}
    (reachable : Reachable config device d) (count : Nat)
    (member : id ∈ d.scheduler.requests.values) :
    (d.iterate device count).scheduler.Accepted id := by
  induction count with
  | zero => exact .of_live ((reachable.orderly valid).1.live member)
  | succ count ih => exact (reachable.iterate count).step_accepted valid ih

/-- What iterations achieve from a state on. -/
structure Progressive (device : Device ω) (d : Driven ω) : Prop where
  /-- While requests are left, the next iteration executes a batch that is not empty. -/
  busy : d.scheduler.isIdle = false → ∃ p s, prepare d.scheduler = .ok p s ∧
    p.batch.sequences ≠ [] ∧ (Driven.step (some device)).Returns d fun _ d' =>
      d'.device = (device.execute p.batch (s.members p.batch) d.device).2
  /-- Whoever comes first among those that run is not preempted. -/
  first : ∀ id ∈ d.scheduler.running,
    (∀ other ∈ d.scheduler.running, other ≠ id → d.scheduler.precedes id other = true) →
      prepare.Returns d.scheduler (fun _ s => id ∈ s.running ∧
        (s.sequence id).preemptions = (d.scheduler.sequence id).preemptions) ∧
      (Driven.step (some device)).Returns d fun _ d' =>
        (d'.scheduler.sequence id).status = .running ∨
          (d'.scheduler.sequence id).isFinished = true
  /-- Nobody is left after as many iterations as there are tokens to get. -/
  bounded : ∀ count : Nat, d.scheduler.budget ≤ count →
    (d.iterate device count).scheduler.isIdle = true
  /-- No request is turned down meanwhile. -/
  accepted : ∀ count, ∀ id ∈ d.scheduler.requests.values,
    (d.iterate device count).scheduler.Accepted id

/-- Who may end as rejected from a state on. -/
structure Sparing (device : Device ω) (d : Driven ω) : Prop where
  /-- An iteration turns nobody down. -/
  step : ∀ id, d.scheduler.Accepted id →
    ((Driven.step (some device)).after d).scheduler.Accepted id
  /-- What is done between iterations does not either, unless live requests are released so. -/
  operated : ∀ rules s', d.scheduler.Operated rules s' → ∀ id, d.scheduler.Accepted id →
    s'.Accepted id ∨ rules.releasing .rejected ∧ id ∈ d.scheduler.requests.values

theorem progressive (valid : device.Valid) {d : Driven ω} (reachable : Reachable config device d) :
    Progressive device d := by
  have orderly := (reachable.orderly valid).1
  have paced := reachable.paced valid
  have round := Driven.step_round orderly paced valid
  constructor
  case busy =>
    intro some
    obtain ⟨_, _, _, @⟨p, s, prepared, planned, assembled, _, _⟩⟩ := round.after
    have batch : p.batch.sequences ≠ [] := by
      intro empty
      have members := assembled.members
      rw [empty] at members
      exact assembled.some some members.nil_eq.symm
    refine ⟨p, s, prepared, batch, round.weaken ?_⟩
    rintro _ d' ⟨_, _, prepared', _, _, executed, _⟩
    rw [prepared] at prepared'
    cases prepared'
    apply executed
    simp [Prepared.hasWork, Batch.isEmpty, batch]
  case first =>
    intro id member least
    have ranked : d.scheduler.Ranked d.scheduler.running := (List.pairwise_append.mp paced.ranked).1
    obtain ⟨rest, head⟩ := ranked.head member least
    constructor
    · refine (prepare_returns orderly).weaken ?_
      rintro p s ⟨_, _, arranged⟩
      exact (arranged.assembled orderly paced).first id rest head
    · refine round.weaken ?_
      rintro _ d' ⟨_, _, _, _, assembled, _, turned⟩
      have runs := (assembled.first id rest head).1
      rcases turned.each id (assembled.members.mem_iff.mpr runs) with past | wentOn
      · exact Or.inr past.terminal
      · exact Or.inl wentOn.status
  case bounded => exact fun _ enough => reachable.idle_after valid enough
  case accepted => exact fun count _ member => reachable.accepted_after valid count member

/-- Iterations make progress until nobody is left. No request that was taken in ends as rejected,
    unless requests are released as rejected while it is live. -/
theorem iterations_terminate (valid : device.Valid) {d : Driven ω}
    (reachable : Reachable config device d) : Progressive device d ∧ Sparing device d ∧
      ∀ rules : Rules, ¬ rules.releasing .rejected → Follows config device rules d →
        ∀ id, d.scheduler.Accepted id :=
  ⟨progressive valid reachable,
    ⟨fun _ => reachable.step_accepted valid,
      fun _ _ operated _ => operated.accepted (reachable.orderly valid).1⟩,
    fun _ never follows => follows.accepted never valid⟩

/-- Two requests that may get sixty-four tokens each, of which eight fit. -/
theorem iterations_terminate_sevens :
    let d := ((smallStart .swap true).request [5, 6]).request [5]
    d.scheduler.budget = 13 ∧ (d.iterate sevens 13).scheduler.isIdle = true ∧
      ∀ id, d.scheduler.Accepted id := by
  have follows : Follows (smallConfig .swap true) sevens ⟨fun _ _ => True, fun _ => False⟩
      (((smallStart .swap true).request [5, 6]).request [5]) :=
    ((Follows.start 20 ()).request sevens_valid (by decide) (by decide) trivial).request sevens_valid
      (by decide) (by decide) trivial
  have budget : (((smallStart .swap true).request [5, 6]).request [5]).scheduler.budget = 13 := by
    decide +kernel
  obtain ⟨progressive, -, accepted⟩ := iterations_terminate sevens_valid follows.reachable
  exact ⟨budget, progressive.bounded 13 (Int.le_of_eq budget), accepted _ id follows⟩

/-- A request that waits ends as rejected when all are released so. -/
theorem rejected_by_release :
    let d := (smallStart .recompute false).request [5]
    let s := (releaseAll .rejected).after d.scheduler
    d.scheduler.requests.values = [0] ∧
      Reachable (smallConfig .recompute false) sevens { d with scheduler := s } ∧
      (s.sequence 0).isFinished = true ∧ ¬ s.Accepted 0 := by
  intro d s
  have reachable := (smallStart_reachable .recompute false).requestSeven [5] (by decide)
  have ended : (s.sequence 0).isFinished = true ∧ (s.sequence 0).finishReason = some .rejected := by
    decide +kernel
  exact ⟨by decide +kernel, .served reachable (.released .rejected), ended.1,
    fun accepted => accepted ended.1 ended.2⟩

end PagedServing.Scheduler
