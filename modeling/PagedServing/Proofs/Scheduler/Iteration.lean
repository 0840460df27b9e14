import PagedServing.Proofs.Scheduler.Failure
import PagedServing.Scheduler.Iteration

/-! # Iterations

An iteration on any device meets no fault: whatever the device answers, the scheduler is
orderly afterwards.
-/

namespace PagedServing

/-- Whatever the device answers for a step that has succeeded is a number that a vocabulary can have. -/
def Device.Valid {ω : Type} (device : Device ω) : Prop :=
  ∀ batch sequences w samples, (device.execute batch sequences w).1.result = .ok samples →
    ∀ sample ∈ samples, sample.success = true → sample.Valid

namespace Scheduler

variable {s s' : Scheduler} {b : Batch} {c : Cache} {slack : Prop}

/-- The sequences that have no blocks any more after a batch has failed. -/
def Lost (s : Scheduler) (b : Batch) (id : SeqId) : Prop :=
  id ∈ b.sequences ∨ Doubtful s.cache b.swapOut.values true id ∨
    Doubtful s.cache b.swapIn.values false id

theorem Turned.nobody_runs {ids : List SeqId} (turned : s.Turned s' ids) (orderly : s'.Orderly [] [] slack)
    (all : ∀ id ∈ s.running, id ∈ ids) (past : ∀ id ∈ ids, Over s' id (· ≠ .rejected)) :
    s'.running = [] := by
  refine List.eq_nil_iff_forall_not_mem.mpr fun id runs => ?_
  have terminal := (past id (all id ((turned.reduced.queues .running).subset runs))).terminal
  rw [(orderly.lined.running id runs).2] at terminal
  cases terminal

theorem failBatch_returns (orderly : s.Orderly [] b.sequences slack) (nodup : b.sequences.Nodup)
    (running : ∀ id ∈ b.sequences, id ∈ s.running) (text : String) :
    (failBatch b text).Returns s fun _ s' => s'.Orderly [] [] slack ∧ s.Dropped s' (s.Lost b) ∧
      ((∀ id ∈ s.running, id ∈ b.sequences) →
        s.Turned s' b.sequences ∧ s.cache.PublishedEach s'.cache b.sequences) := by
  simp only [failBatch, Action.returns_bind]
  refine report_returns fun journal => ?_
  refine (failEach_returns text b.sequences (orderly.reported journal) nodup running).weaken ?_
  rintro outputs s₁ ⟨orderly₁, ended, turned, past, published⟩
  simp only [dropBlockOps, Action.returns_bind, Action.returns_get, Action.returns_pure]
  refine (dropSwappedOut_returns b.swapOut.values s₁.preempted orderly₁ fun _ => id).weaken ?_
  rintro _ s₂ ⟨orderly₂, kept, registry, out⟩
  refine (dropSwappedIn_returns b.swapIn.values s₂.running orderly₂ (orderly₂.lined.nodup .running)
    fun _ => id).run.weaken ?_
  rintro _ s₃ ⟨run, orderly₃, back⟩
  refine ⟨orderly₃, ?_, fun all => ?_⟩
  case refine_2 =>
    have reported : s.Kept { s with cache := { s.cache with journal } } :=
      .of_unmoved ⟨rfl, rfl, fun _ => rfl⟩ fun _ => rfl
    have nobody : s₂.running = [] := by
      have none : s₁.running = [] := turned.nobody_runs orderly₁ all past
      have fewer : s₂.running.Sublist s₁.running := kept.reduced.queues .running
      exact List.sublist_nil.mp (none ▸ fewer)
    rw [nobody, dropSwappedIn] at run
    cases run
    refine ⟨(reported.turned turned).kept kept, published.congr ?_ ?_ registry⟩
    · exact fun _ => rfl
    · exact fun _ _ _ _ => Cache.publishes_reported
  -- whoever was not touched before is found in the queue that is searched
  have members : s.Dropped s₁ (· ∈ b.sequences) := by
    have nothing : s.Dropped { s with cache := { s.cache with journal } } fun _ => False :=
      ⟨⟨rfl, .single (.reported _ journal)⟩, fun id => Or.inl ⟨rfl, rfl, not_false⟩⟩
    exact nothing.trans ended fun _ _ _ => Or.inr
  have host : s.Dropped s₂ fun id =>
      id ∈ b.sequences ∨ Doubtful s.cache b.swapOut.values true id := by
    refine members.trans out fun id same swapped must => must.imp_right fun doubtful => ?_
    have doubtful := Doubtful.congr doubtful same swapped
    exact ⟨orderly₁.preempted_of_swapped doubtful.1, doubtful⟩
  refine host.trans back fun id same swapped must => ?_
  rcases must with member | doubtful | doubtful
  · exact Or.inl (Or.inl member)
  · exact Or.inl (Or.inr doubtful)
  · have doubtful := Doubtful.congr doubtful same swapped
    refine Or.inr ⟨orderly₂.running_of_table doubtful.1 fun bare => ?_, doubtful⟩
    have touched := doubtful.2
    simp [bare, touches] at touched

/-- What becomes of the sequences of an executed batch: the first ones are committed, all of them
    unless the commit is broken off, or the batch fails as a whole. -/
inductive Settled (s s' : Scheduler) (b : Batch) : Except String (List Sample) → Prop where
  | committed {samples : List Sample} {front : List SeqId} {journal : Logging.Journal}
      (count : samples.length = b.size) (first : front <+: b.sequences)
      (each : CommittedEach front { s.cache with journal } s'.cache) : Settled s s' b (.ok samples)
  | failed {result : Except String (List Sample)}
      (failure : ∀ samples, result = .ok samples → samples.length ≠ b.size)
      (dropped : s.Dropped s' (s.Lost b)) : Settled s s' b result

theorem settle_failing {p : Prepared} {e : Execution} {post : List Output → Scheduler → Prop}
    (failure : ∀ samples, e.result = .ok samples → samples.length ≠ p.batch.size)
    (fails : ∀ text journal,
      (failBatch p.batch text).Returns { s with cache := { s.cache with journal } } post) :
    (settle p e).Returns s post := by
  simp only [settle, keepRecords, Action.returns_bind, returns_onCache, Action.returns_modify]
  cases result : e.result with
  | error text => exact fails text _
  | ok samples =>
      simp only [commit]
      rw [if_pos (failure samples result)]
      exact fails _ _

theorem settle_returns {p : Prepared} {e : Execution}
    (orderly : s.Orderly [] p.batch.sequences slack)
    (nodup : p.batch.sequences.Nodup) (running : ∀ id ∈ p.batch.sequences, id ∈ s.running)
    (accepted : ∀ samples, e.result = .ok samples → samples.length = p.batch.size →
      ∀ sample ∈ samples, sample.success = true → s.cache.Accepts sample) :
    (settle p e).Returns s fun _ s' => s'.Orderly [] [] slack ∧ s'.config = s.config ∧
      Settled s s' p.batch e.result ∧
      ((∀ id ∈ s.running, id ∈ p.batch.sequences) → s.Turned s' p.batch.sequences) := by
  have reported : ∀ journal, s.Kept { s with cache := { s.cache with journal } } := fun journal =>
    .of_unmoved ⟨rfl, rfl, fun _ => rfl⟩ fun _ => rfl
  by_cases failure : ∀ samples, e.result = .ok samples → samples.length ≠ p.batch.size
  · refine settle_failing failure fun text journal => ?_
    refine (failBatch_returns (orderly.reported journal) nodup running text).weaken ?_
    rintro _ s' ⟨orderly', dropped, turned⟩
    have nothing : s.Dropped { s with cache := { s.cache with journal } } fun _ => False :=
      ⟨⟨rfl, .single (.reported _ journal)⟩, fun id => Or.inl ⟨rfl, rfl, not_false⟩⟩
    exact ⟨orderly', dropped.carried.config, .failed failure
      (nothing.trans dropped fun _ _ _ => Or.inr), fun all => (reported journal).turned (turned all).1⟩
  · simp only [not_forall, not_not] at failure
    obtain ⟨samples, result, count⟩ := failure
    simp only [settle, keepRecords, Action.returns_bind, returns_onCache, Action.returns_modify,
      result, commit]
    rw [if_neg (not_not.mpr count)]
    generalize e.records.foldl Logging.Journal.write s.cache.journal = journal
    have orderly₁ := orderly.reported journal
    have names := (Batch.sequences_of_zip count rfl).symm
    have each : ∀ e ∈ p.batch.sequences.zip samples, e.1 ∈ s.running ∧
        (e.2.success = true → { s.cache with journal }.Accepts e.2) := fun e member =>
      ⟨running e.1 (List.of_mem_zip member).1, fun success =>
        (accepted samples result count e.2 (List.of_mem_zip member).2 success).congr rfl⟩
    rw [← names, ← List.append_nil (List.map _ _)] at orderly₁ nodup
    refine (commitEach_returns [] _ orderly₁ nodup each).weaken ?_
    rintro _ s' ⟨orderly', turned, committed⟩
    rw [names] at committed turned
    exact ⟨orderly', turned.reduced.config, .committed count (List.prefix_refl _) committed,
      fun _ => (reported journal).turned turned⟩

theorem prepare_returns (orderly : s.Orderly [] [] slack) :
    prepare.Returns s fun p s' => Planned s.cache s' p.batch slack ∧ s'.config = s.config ∧
      s.Arranged s' p.batch slack := by
  simp only [prepare, Action.returns_bind, Action.returns_get]
  refine (schedule_returns orderly).weaken ?_
  rintro b s₁ ⟨planned, config, arranged, _⟩
  rw [takePending_returns, Action.returns_pure]
  obtain ⟨retreated, orderly₁, room, advanced, orderly₂, stuck,
    ⟨unmoved, enlarged, supplied, all⟩, swapIn⟩ := arranged
  refine ⟨?_, config, .intro retreated orderly₁ room advanced orderly₂ stuck
    ⟨⟨unmoved.config, unmoved.requests, unmoved.queues⟩, enlarged, supplied, all⟩ swapIn⟩
  exact ⟨planned.orderly.unmoved rfl ⟨rfl, rfl, fun _ => rfl⟩, planned.moved, planned.laid,
    planned.nodup, planned.running, planned.blockSize, planned.copies⟩

theorem conclude_returns {p : Prepared} {outputs : List Output}
    {post : StepResult → Scheduler → Prop} (orderly : s.Orderly [] [] slack)
    (next : ∀ r s', s'.Orderly [] [] slack → s'.cache = s.cache → s.Unmoved s' → post r s') :
    (conclude p outputs).Returns s post := by
  simp only [conclude, Action.returns_bind, Action.returns_modify, Action.returns_pure]
  exact next _ _ (orderly.unmoved rfl ⟨rfl, rfl, fun _ => rfl⟩) rfl ⟨rfl, rfl, fun _ => rfl⟩

namespace Driven

variable {ω : Type} {device : Device ω} {d d' : Driven ω}

@[simp]
theorem returns_onScheduler {α : Type} {act : Action Scheduler α} {post : α → Driven ω → Prop} :
    (onScheduler act).Returns d post ↔
      act.Returns d.scheduler fun a s => post a { d with scheduler := s } := by
  simp [onScheduler]

/-- What one iteration does: a batch is planned and, if it has work, executed and settled. -/
inductive Stepped (device : Device ω) (d d' : Driven ω) (slack : Prop := False) : Prop where
  | idle {p : Prepared} {s : Scheduler} (prepared : prepare d.scheduler = .ok p s)
      (planned : Planned d.scheduler.cache s p.batch slack) (idle : p.hasWork = false)
      (cache : d'.scheduler.cache = s.cache) (unmoved : s.Unmoved d'.scheduler)
  | executed {p : Prepared} {s t : Scheduler} (prepared : prepare d.scheduler = .ok p s)
      (planned : Planned d.scheduler.cache s p.batch slack) (work : p.hasWork = true)
      (settled : Settled s t p.batch
        (device.execute p.batch (s.members p.batch) d.device).1.result)
      (cache : d'.scheduler.cache = t.cache)
      (device : d'.device = (device.execute p.batch (s.members p.batch) d.device).2)
      (turned : (∀ id ∈ s.running, id ∈ p.batch.sequences) →
        s.Turned d'.scheduler p.batch.sequences)

theorem sequences_of_idle {p : Prepared} (idle : p.hasWork = false) : p.batch.sequences = [] := by
  unfold Prepared.hasWork at idle
  have := (Bool.or_eq_false_iff.mp idle).1
  simpa [Batch.isEmpty] using this

theorem step_of_prepared {p : Prepared} {s : Scheduler} (prepared : prepare d.scheduler = .ok p s) :
    step (some device) d = complete device p { d with scheduler := s } := by
  have planned : onScheduler prepare d = .ok p { d with scheduler := s } := by
    simp [onScheduler, Action.within, prepared]
  exact (Action.bind_of_run rfl).trans (Action.bind_of_run planned)

/-- If all that the device answers for a batch can be committed, the iteration returns. -/
theorem complete_returns {p : Prepared} {s : Scheduler} (orderly : d.scheduler.Orderly [] [] slack)
    (prepared : prepare d.scheduler = .ok p s)
    (accepted : ∀ samples,
      (device.execute p.batch (s.members p.batch) d.device).1.result = .ok samples →
      samples.length = p.batch.size → ∀ sample ∈ samples, sample.success = true →
        s.cache.Accepts sample) :
    (step (some device)).Returns d fun _ d' => d'.scheduler.Orderly [] [] slack ∧
      d'.scheduler.config = d.scheduler.config ∧ Stepped device d d' slack := by
  obtain ⟨planned, config, _⟩ := (prepare_returns orderly).of_run prepared
  rw [Action.Returns, step_of_prepared prepared]
  show (complete device p).Returns { d with scheduler := s } _
  unfold complete
  split
  · rename_i work
    simp only [execute, Action.returns_bind, Action.returns_get, Action.returns_set,
      Action.returns_pure, returns_onScheduler]
    refine (settle_returns planned.orderly planned.nodup planned.running accepted).weaken ?_
    rintro outputs t ⟨settledOrderly, same, settled, turned⟩
    refine conclude_returns settledOrderly fun r t' orderly' cache' unmoved => ?_
    have kept : t.Kept t' := .of_unmoved unmoved fun _ => by rw [cache']
    exact ⟨orderly', (unmoved.config.trans same).trans config, .executed prepared planned work
      settled cache' rfl fun all => (turned all).kept kept⟩
  · rename_i idle
    have idle : p.hasWork = false := by simpa using idle
    have rest : s.Orderly [] [] slack := sequences_of_idle idle ▸ planned.orderly
    rw [returns_onScheduler]
    refine conclude_returns rest fun r t orderly' cache' unmoved => ?_
    exact ⟨orderly', unmoved.config.trans config, .idle prepared planned idle cache' unmoved⟩

theorem step_returns (orderly : d.scheduler.Orderly [] []) (valid : device.Valid) :
    (step (some device)).Returns d fun _ d' => d'.scheduler.Orderly [] [] ∧
      d'.scheduler.config = d.scheduler.config ∧ Stepped device d d' := by
  obtain ⟨p, s, prepared, _⟩ := prepare_returns orderly
  exact complete_returns orderly prepared fun samples answer _ sample among success =>
    (valid _ _ _ samples answer sample among success).accepted _

end Driven

end Scheduler

end PagedServing
