import PagedServing.Proofs.Scheduler.Calls
import PagedServing.Proofs.Scheduler.Runs

/-! # Commits that are broken off

A device may answer a negative number, which is no token. The commit of its batch is broken off
there: the sequences in front were committed, and the others wait for another iteration. Queues and
blocks stay orderly, but for the tables that cover a token that never came.
-/

namespace PagedServing

/-- The step has succeeded, but its number is no token. -/
def Sample.Refused (sample : Sample) : Prop :=
  sample.success = true ∧ sample.token < 0

instance (sample : Sample) : Decidable sample.Refused :=
  inferInstanceAs (Decidable (_ ∧ _))

/-- Whatever the device answers, no token is too large for a word, if blocks are shared. It may be
    negative. -/
def Device.Bounded {ω : Type} (device : Device ω) (config : Config) : Prop :=
  config.sharing = true → ∀ batch sequences w samples,
    (device.execute batch sequences w).1.result = .ok samples →
      ∀ sample ∈ samples, sample.success = true → sample.token < 2 ^ 31

theorem Device.Valid.bounded {ω : Type} {device : Device ω} (valid : device.Valid) (config : Config) :
    device.Bounded config :=
  fun _ batch sequences w samples answer sample member success =>
    (valid batch sequences w samples answer sample member success).2

namespace Ledger

/-- The turns in which samples are committed. -/
def answers (l : Ledger) (entries : List (SeqId × Sample)) : List Turn :=
  entries.map fun e => l.answer e.1 e.2

theorem answers_ids (l : Ledger) (entries : List (SeqId × Sample)) :
    (l.answers entries).map (·.id) = entries.map (·.1) := by
  simp [answers, Function.comp_def]

theorem mem_answers {l : Ledger} {entries : List (SeqId × Sample)} {e : SeqId × Sample}
    (among : e ∈ entries) : l.answer e.1 e.2 ∈ l.answers entries :=
  List.mem_map_of_mem (f := fun e => l.answer e.1 e.2) among

end Ledger

namespace Scheduler

variable {s : Scheduler} {id : SeqId} {grown : List SeqId} {sample : Sample} {slack : Prop}
  {before after : List (SeqId × Sample)}

theorem Orderly.noted {c : Cache} (orderly : s.Orderly [] grown slack) (member : id ∈ s.running)
    (ahead : id ∈ grown) (noted : s.cache.Noted c id { s.cache.sequence id with
      computed := (s.cache.sequence id).length }) :
    { s with cache := c }.Orderly [] grown slack ∧
      ∀ other, (c.sequence other).status = (s.cache.sequence other).status := by
  have registered := orderly.mem_values .running member
  obtain ⟨status, progressed, placed⟩ := noted_running orderly member ahead noted
  have same : (c.sequence id).status = (s.cache.sequence id).status :=
    status.trans (orderly.lined.running id member).2.symm
  refine ⟨orderly.kept registered (.of_noted orderly.sound noted) ⟨rfl, rfl, fun _ => rfl⟩
    (fun _ _ => Iff.rfl) same (fun _ => (placed.running status).1) progressed ?_ ?_,
    fun other => ?_⟩
  · rw [if_pos ahead]
    exact placed
  · rw [show (c.sequence id).length = _ from noted.length id]
    exact orderly.registered.short id registered List.not_mem_nil
  · by_cases own : other = id
    · exact own ▸ same
    · rw [noted.replaced.others other own]

theorem append_fails (s : Scheduler) (id : SeqId) {token : Int} (negative : token < 0) :
    (onCache (Cache.append id token)).Fails s fun fault s' =>
      fault = .negativeToken token ∧ s' = s := by
  have refused : (s.cache.sequence id).append token = .error (.negativeToken token) := by
    simp [Sequence.append, negative]
  simp only [onCache, Action.fails_within, Cache.append, Action.fails_bind, Cache.returns_look,
    Action.fails_ofExcept, refused]
  exact Or.inr (Or.inl ⟨_, rfl, rfl, trivial⟩)

theorem commitOne_refuses (orderly : s.Orderly [] grown slack) (member : id ∈ s.running)
    (ahead : id ∈ grown) (refused : sample.Refused) :
    (commitOne id sample).Fails s fun fault s' => fault = .negativeToken sample.token ∧
      s'.Orderly [] grown slack ∧ s'.config = s.config ∧ s'.ledger = s.ledger ∧
      Committed s.cache s'.cache id ∧ ∀ other, (s'.cache.sequence other).status = (s.cache.sequence other).status := by
  obtain ⟨knows, status⟩ := orderly.lined.running id member
  obtain ⟨success, negative⟩ := refused
  have noting : (edit id fun q => { q with computed := q.length }).Returns s fun _ s' =>
      s'.Orderly [] grown slack ∧ s'.config = s.config ∧ Committed s.cache s'.cache id ∧
        ∀ other, (s'.cache.sequence other).status = (s.cache.sequence other).status :=
    edit_returns knows ⟨rfl, rfl⟩ fun c noted =>
      (orderly.noted member ahead noted).imp_right fun statuses =>
        ⟨rfl, ⟨.of_noted orderly.sound noted, ⟨c, noted, .refl⟩, .of_noted noted⟩, statuses⟩
  have keeping : (edit id fun q => { q with computed := q.length }).Keeps ledger :=
    edit_keeps fun _ => rfl
  rw [commitOne, Action.fails_bind, returns_look, Action.fails_bind, Action.returns_require]
  refine Or.inr (Or.inr ⟨decide_eq_true status, ?_⟩)
  rw [Action.fails_bind]
  refine Or.inr ((noting.also (keeping s)).weaken ?_)
  rintro _ s₁ ⟨⟨orderly₁, config, committed, statuses⟩, same⟩
  simp only [success, Bool.not_true, Bool.false_eq_true, if_false, Action.fails_bind]
  obtain ⟨_, _, run, rfl, rfl⟩ := append_fails s₁ id negative
  exact Or.inl ⟨_, _, run, rfl, orderly₁, config, same, committed, statuses⟩

theorem fails_commitEach_append {samples samples' : List (SeqId × Sample)}
    {post : Fault → Scheduler → Prop}
    (fails : (commitEach samples).Returns s fun _ t => (commitEach samples').Fails t post) :
    (commitEach (samples ++ samples')).Fails s post := by
  induction samples generalizing s with
  | nil => simpa [commitEach] using fails
  | cons e samples ih =>
      simp only [commitEach, List.cons_append, Action.returns_bind, Action.returns_pure,
        Action.fails_bind, Action.fails_pure] at fails ⊢
      exact Or.inr (fails.weaken fun _ t rest => Or.inl (ih rest))

/-- Behind `before` comes the first sample whose number is no token. -/
structure FirstRefused (entries before : List (SeqId × Sample)) (sample : Sample) : Prop where
  place : ∃ id after, entries = before ++ (id, sample) :: after
  refused : sample.Refused
  tokens : ∀ e ∈ before, ¬ e.2.Refused

theorem tokens_or_refused (entries : List (SeqId × Sample)) : (∀ e ∈ entries, ¬ e.2.Refused) ∨
    ∃ before sample, FirstRefused entries before sample := by
  cases found : entries.find? fun e => decide e.2.Refused with
  | none =>
      refine Or.inl fun e member => ?_
      simpa using List.find?_eq_none.mp found e member
  | some e =>
      obtain ⟨refused, before, after, place, tokens⟩ := List.find?_eq_some_iff_append.mp found
      refine Or.inr ⟨before, e.2, ⟨e.1, after, place⟩, of_decide_eq_true refused, ?_⟩
      intro e member
      simpa using tokens e member

/-- What a broken-off commit leaves: the sequences in front had their turns, and whoever of them is
    no request any more has ended. -/
structure BrokenOff (s s' : Scheduler) (before : List (SeqId × Sample)) : Prop where
  orderly : s'.Orderly [] [] True
  config : s'.config = s.config
  settled : ∀ e ∈ before,
    e.1 ∈ s'.requests.values ∨ (s'.cache.sequence e.1).isFinished = true
  heard : ∃ outputs, Heard s.ledger (s.ledger.answers before) outputs s'.ledger

theorem commitEach_refuses
    (orderly : s.Orderly [] ((before ++ (id, sample) :: after).map (·.1)) slack)
    (distinct : ((before ++ (id, sample) :: after).map (·.1)).Nodup)
    (running : ∀ e ∈ before ++ (id, sample) :: after, e.1 ∈ s.running)
    (accepted : ∀ e ∈ before, e.2.success = true → s.cache.Accepts e.2) (refused : sample.Refused) :
    (commitEach (before ++ (id, sample) :: after)).Fails s fun fault s' =>
      fault = .negativeToken sample.token ∧ BrokenOff s s' before ∧
        CommittedEach (before.map (·.1) ++ [id]) s.cache s'.cache := by
  have knows : ∀ e ∈ before, s.cache.Knows e.1 := fun e member =>
    (orderly.lined.running e.1 (running e (List.mem_append_left _ member))).1
  have front : (before.map (·.1)).Nodup := by
    rw [List.map_append] at distinct
    exact (List.nodup_append.mp distinct).1
  refine fails_commitEach_append (((commitEach_before orderly distinct running accepted).also
    (commitEach_heard before knows front)).weaken ?_)
  rintro outputs s₁ ⟨⟨orderly₁, turned, each, stays⟩, heard⟩
  obtain ⟨_, member, _⟩ := stays (id, sample) List.mem_cons_self
  obtain ⟨_, s', run, fault, orderly', config, same, committed, statuses⟩ :=
    commitOne_refuses orderly₁ member List.mem_cons_self refused
  rw [commitEach, Action.fails_bind]
  refine Or.inl ⟨_, s', run, fault, ⟨orderly'.loosen, config.trans turned.reduced.config, ?_,
    outputs, same ▸ heard⟩, each.snoc committed⟩
  intro e among
  have known : s'.cache.Knows e.1 := knows_of_count
    ((congrArg Ledger.count same).trans heard.count) (knows e among)
  rcases turned.each e.1 (List.mem_map_of_mem among) with past | wentOn
  · refine Or.inr ?_
    rw [Sequence.isFinished, statuses]
    exact past.terminal
  · have status := (statuses e.1).trans wentOn.status
    exact Or.inl (orderly'.mem_values .running
      (orderly'.lined.queued_running e.1 known status List.not_mem_nil))

theorem settle_refuses {p : Prepared} {e : Execution} {samples : List Sample}
    (orderly : s.Orderly [] p.batch.sequences slack) (distinct : p.batch.sequences.Nodup)
    (running : ∀ id ∈ p.batch.sequences, id ∈ s.running) (answer : e.result = .ok samples)
    (count : samples.length = p.batch.size)
    (place : p.batch.sequences.zip samples = before ++ (id, sample) :: after)
    (accepted : ∀ e ∈ before, e.2.success = true → s.cache.Accepts e.2) (refused : sample.Refused) :
    (settle p e).Fails s fun fault s' => fault = .negativeToken sample.token ∧
      BrokenOff s s' before ∧ Settled s s' p.batch e.result := by
  have names := Batch.sequences_of_zip count place
  have among : ∀ e ∈ before ++ (id, sample) :: after, e.1 ∈ s.running := fun e member =>
    running e.1 (names ▸ List.mem_map_of_mem member)
  simp only [settle, keepRecords, Action.fails_bind, returns_onCache, Action.returns_modify, answer,
    commit]
  rw [if_neg (not_not.mpr count), place]
  generalize e.records.foldl Logging.Journal.write s.cache.journal = journal
  rw [names] at orderly distinct
  obtain ⟨_, s', run, fault, ⟨orderly', config, settled, heard⟩, each⟩ :=
    commitEach_refuses (orderly.reported journal) distinct among
      (fun e member success => (accepted e member success).congr rfl) refused
  have front : before.map (·.1) ++ [id] <+: p.batch.sequences :=
    ⟨after.map (·.1), by rw [names]; simp⟩
  exact Or.inr ⟨_, s', run, fault, ⟨orderly', config, settled, heard⟩, .committed count front each⟩

namespace Driven

variable {ω : Type} {device : Device ω} {d : Driven ω} {p : Prepared} {m : Scheduler}
  {samples : List Sample}

theorem step_refuses (orderly : d.scheduler.Orderly [] [] slack)
    (prepared : prepare d.scheduler = .ok p m)
    (answer : (device.execute p.batch (m.members p.batch) d.device).1.result = .ok samples)
    (count : samples.length = p.batch.size)
    (place : p.batch.sequences.zip samples = before ++ (id, sample) :: after)
    (accepted : ∀ e ∈ before, e.2.success = true → m.cache.Accepts e.2) (refused : sample.Refused) :
    (step (some device)).Fails d fun fault d' => fault = .negativeToken sample.token ∧
      BrokenOff { d.scheduler with pending := [] } d'.scheduler before ∧
      Settled m d'.scheduler p.batch
        (device.execute p.batch (m.members p.batch) d.device).1.result := by
  obtain ⟨planned, config, _⟩ := (prepare_returns orderly).of_run prepared
  obtain ⟨_, quiet⟩ := prepare_ledger orderly p m prepared
  have work : p.hasWork = true := by
    by_contra idle
    have nobody := sequences_of_idle (Bool.eq_false_iff.mpr idle)
    simp [nobody] at place
  obtain ⟨_, s', run, fault, ⟨orderly', config', ended, heard⟩, settled⟩ :=
    settle_refuses planned.orderly planned.nodup planned.running answer count place accepted refused
  rw [quiet] at heard
  rw [Action.Fails, step_of_prepared prepared]
  show (complete device p).Fails { d with scheduler := m } _
  rw [complete, if_pos work, Action.fails_bind]
  refine Or.inr ?_
  simp only [execute, Action.returns_bind, Action.returns_get, Action.returns_set,
    Action.returns_pure, onScheduler, Action.fails_within, Action.fails_bind]
  exact Or.inl ⟨_, s', run, fault, ⟨orderly', config'.trans config, ended, heard⟩, settled⟩

/-- An iteration returns if the device answers with tokens only, and is broken off otherwise. -/
theorem step_outcome (orderly : d.scheduler.Orderly [] [] slack)
    (bounded : device.Bounded d.scheduler.config) (prepared : prepare d.scheduler = .ok p m) :
    ((∀ samples, (device.execute p.batch (m.members p.batch) d.device).1.result = .ok samples →
        samples.length = p.batch.size → ∀ e ∈ p.batch.sequences.zip samples, ¬ e.2.Refused) ∧
      (step (some device)).Returns d fun _ d' => d'.scheduler.Orderly [] [] slack ∧
        d'.scheduler.config = d.scheduler.config ∧ Stepped device d d' slack) ∨
    ∃ samples before sample,
      (device.execute p.batch (m.members p.batch) d.device).1.result = .ok samples ∧
      samples.length = p.batch.size ∧
      FirstRefused (p.batch.sequences.zip samples) before sample ∧
      (step (some device)).Fails d fun fault d' => fault = .negativeToken sample.token ∧
        BrokenOff { d.scheduler with pending := [] } d'.scheduler before ∧
        Settled m d'.scheduler p.batch (.ok samples) := by
  obtain ⟨planned, config, _⟩ := (prepare_returns orderly).of_run prepared
  have accepts : ∀ samples,
      (device.execute p.batch (m.members p.batch) d.device).1.result = .ok samples →
        ∀ sample ∈ samples, ¬ sample.Refused → sample.success = true → m.cache.Accepts sample := by
    intro samples answer sample among token success
    have natural : 0 ≤ sample.token := Int.not_lt.mp fun negative => token ⟨success, negative⟩
    refine .of_small natural fun sharing => ?_
    rw [planned.orderly.configured.sharing, config] at sharing
    exact bounded sharing _ _ _ samples answer sample among success
  by_cases all : ∀ samples,
      (device.execute p.batch (m.members p.batch) d.device).1.result = .ok samples →
        samples.length = p.batch.size → ∀ e ∈ p.batch.sequences.zip samples, ¬ e.2.Refused
  · refine Or.inl ⟨all, complete_returns orderly prepared ?_⟩
    intro samples answer count sample among
    have paired : (p.batch.sequences.zip samples).map (·.2) = samples :=
      List.map_snd_zip (Nat.le_of_eq count)
    obtain ⟨e, member, same⟩ := List.mem_map.mp (paired.symm ▸ among)
    exact accepts samples answer sample among (same ▸ all samples answer count e member)
  · simp only [not_forall] at all
    obtain ⟨samples, answer, count, e, member, refused⟩ := all
    rcases tokens_or_refused (p.batch.sequences.zip samples) with tokens | ⟨before, sample, first⟩
    · exact absurd (tokens e member) refused
    · refine Or.inr ⟨samples, before, sample, answer, count, first, ?_⟩
      obtain ⟨⟨id, after, place⟩, refused, tokens⟩ := first
      rw [← answer]
      refine step_refuses orderly prepared answer count place (fun e among => ?_) refused
      have member := place ▸ List.mem_append_left _ among
      exact accepts samples answer e.2 (List.of_mem_zip member).2 (tokens e among)

/-- Whatever the device answers, an iteration leaves the scheduler orderly but for some slack, and a
    batch that it has executed is settled. -/
theorem step_settles (orderly : d.scheduler.Orderly [] [] slack)
    (bounded : device.Bounded d.scheduler.config) (prepared : prepare d.scheduler = .ok p m) :
    let d' := (step (some device)).after d
    d'.scheduler.Orderly [] [] True ∧ d'.scheduler.config = d.scheduler.config ∧
      (p.hasWork = false → d'.scheduler.cache = m.cache) ∧
      (p.hasWork = true → ∃ t, d'.scheduler.cache = t.cache ∧
        Settled m t p.batch (device.execute p.batch (m.members p.batch) d.device).1.result) := by
  rcases step_outcome orderly bounded prepared with
    ⟨-, returns⟩ | ⟨samples, before, sample, answer, count, first, fails⟩
  · obtain ⟨_, orderly', config, stepped⟩ := returns.after
    refine ⟨orderly'.loosen, config, fun idle => ?_, fun work => ?_⟩
    · cases stepped with
      | idle prepared' _ _ cache =>
          cases prepared.symm.trans prepared'
          exact cache
      | executed prepared' _ work =>
          cases prepared.symm.trans prepared'
          simp [idle] at work
    · cases stepped with
      | idle prepared' _ idle =>
          cases prepared.symm.trans prepared'
          simp [work] at idle
      | executed prepared' _ _ settled cache =>
          cases prepared.symm.trans prepared'
          exact ⟨_, cache, settled⟩
  · obtain ⟨_, _, broken, settled⟩ := fails.after
    refine ⟨broken.orderly, broken.config, fun idle => ?_, fun _ => ⟨_, rfl, answer ▸ settled⟩⟩
    obtain ⟨⟨id, after, place⟩, -⟩ := first
    simp [sequences_of_idle idle] at place

end Driven

variable {ω : Type} {config : Config} {device : Device ω} {d : Driven ω}

theorem Reachable.orderly_of_bounded (bounded : device.Bounded config)
    (reachable : Reachable config device d) :
    d.scheduler.Orderly [] [] True ∧ d.scheduler.config = config := by
  induction reachable with
  | start threshold w => exact ⟨(start_orderly config threshold).loosen, rfl⟩
  | served before served ih =>
      obtain ⟨orderly, carried⟩ := served.orderly ih.1
      exact ⟨orderly, carried.config.trans ih.2⟩
  | stepped before ih =>
      obtain ⟨orderly, same⟩ := ih
      obtain ⟨p, m, prepared, -⟩ := prepare_returns orderly
      obtain ⟨orderly', config', -⟩ := Driven.step_settles orderly (same.symm ▸ bounded) prepared
      exact ⟨orderly', config'.trans same⟩

end Scheduler

end PagedServing
