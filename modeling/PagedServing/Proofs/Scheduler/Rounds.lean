import PagedServing.Proofs.Scheduler.Iteration
import PagedServing.Proofs.Scheduler.Participation

/-! # Rounds

In an iteration everybody who runs has a turn: it gets a token or ends. What iterations rely on
to make progress holds again afterwards.
-/

namespace PagedServing.Scheduler

variable {s s' t : Scheduler} {id : SeqId} {b : Batch}

theorem Reduced.ranked (reduced : s.Reduced s') {ids ids' : List SeqId} (ranked : s.Ranked ids)
    (fewer : ids'.Sublist ids) : s'.Ranked ids' := by
  unfold Ranked
  simp only [precedes_of_origins reduced.origins]
  exact ranked.sublist fewer

theorem HadTurn.wentOn (turn : HadTurn s s' id) (member : id ∈ s'.requests.values) :
    WentOn (s.cache.sequence id) (s'.cache.sequence id) := by
  rcases turn with past | wentOn
  · exact absurd member past.unregistered
  · exact wentOn

/-- After a planned batch has had its turn, the next iteration can make progress again. -/
theorem Assembled.paced (assembled : s.Assembled t b) (paced : s.Paced)
    (turned : t.Turned s' b.sequences) (orderly : s'.Orderly [] []) : s'.Paced := by
  obtain ⟨steady, members, _, sequences, tokens, pending, ranked, _, _, _⟩ := assembled
  have reduced := turned.reduced
  have running : s'.running.Sublist t.running := reduced.queues .running
  have front : (s'.running ++ s'.preempted).Sublist (t.running ++ t.preempted) :=
    running.append (reduced.queues .preempted)
  constructor
  case sequences =>
    rw [reduced.config]
    exact running.length_le.trans sequences
  case tokens =>
    rw [reduced.config]
    exact running.length_le.trans tokens
  -- whoever still runs had a turn and got one token
  case uncomputed =>
    intro id runs
    have among : id ∈ b.sequences := members.mem_iff.mpr (running.subset runs)
    have wentOn := (turned.each id among).wentOn (orderly.mem_values .running runs)
    exact Int.le_of_eq wentOn.uncomputed
  case pending =>
    intro id member
    by_cases among : id ∈ b.sequences
    · rw [((turned.each id among).wentOn member).uncomputed]
      exact Int.one_pos
    · have before := pending id (reduced.requests id member)
      exact before.trans_le (turned.others id among).uncomputed
  case below =>
    intro id member
    by_cases among : id ∈ b.sequences
    · exact ((turned.each id among).wentOn member).below
    · have before := paced.below id (steady.requests ▸ reduced.requests id member)
      have account := (turned.others id among).account.trans (steady.account id)
      rw [Sequence.completion_of_account account, Sequence.sampling_of_account account]
      exact before
  case unstarted =>
    intro id waits
    by_cases among : id ∈ b.sequences
    · rcases turned.each id among with past | wentOn
      · have terminal := past.terminal
        rw [waits] at terminal
        cases terminal
      · simp [wentOn.status] at waits
    -- it was not in the batch, and waits as it did before the planning
    · have spared := turned.others id among
      have waited : (t.cache.sequence id).status = .waiting := spared.status.symm.trans waits
      have same := (spared.kept (by simp [waited])).trans
        (steady.kept id (by simp [waited]) (by simp [waited]))
      rw [same] at waits ⊢
      exact paced.unstarted id waits
  case ranked => exact reduced.ranked ranked front

namespace Driven

variable {ω : Type} {device : Device ω} {d d' : Driven ω}

/-- In one iteration a batch of all that run is planned, and everybody in it has a turn. -/
inductive Round (device : Device ω) (d d' : Driven ω) : Prop where
  | intro {p : Prepared} {s : Scheduler} (prepared : prepare d.scheduler = .ok p s)
      (planned : Planned d.scheduler.cache s p.batch)
      (assembled : d.scheduler.Assembled s p.batch)
      (executed : p.hasWork = true →
        d'.device = (device.execute p.batch (s.members p.batch) d.device).2)
      (turned : s.Turned d'.scheduler p.batch.sequences) : Round device d d'

theorem Stepped.round (stepped : Stepped device d d') (orderly : d.scheduler.Orderly [] [])
    (paced : d.scheduler.Paced) : Round device d d' := by
  have assembled : ∀ {p s}, prepare d.scheduler = .ok p s → d.scheduler.Assembled s p.batch := by
    intro p s prepared
    obtain ⟨_, _, arranged⟩ := (prepare_returns orderly).of_run prepared
    exact arranged.assembled orderly paced
  cases stepped with
  | idle prepared planned idle cache unmoved =>
      have kept := Kept.of_unmoved unmoved fun _ => by rw [cache]
      refine .intro prepared planned (assembled prepared) (fun work => by simp [idle] at work) ?_
      rw [sequences_of_idle idle]
      exact (Turned.nil _).kept kept
  | executed prepared planned work settled cache state turned =>
      have assembled := assembled prepared
      refine .intro prepared planned assembled (fun _ => state) (turned fun id runs => ?_)
      exact assembled.members.mem_iff.mpr runs

theorem step_round (orderly : d.scheduler.Orderly [] []) (paced : d.scheduler.Paced)
    (valid : device.Valid) : (step (some device)).Returns d fun _ d' =>
      d'.scheduler.Orderly [] [] ∧ d'.scheduler.Paced ∧ Round device d d' := by
  refine (step_returns orderly valid).weaken ?_
  rintro _ d' ⟨orderly', _, stepped⟩
  obtain ⟨prepared, planned, assembled, executed, turned⟩ := stepped.round orderly paced
  exact ⟨orderly', assembled.paced paced turned orderly',
    .intro prepared planned assembled executed turned⟩

end Driven

theorem Thinned.paced {allowed : FinishReason → Prop} (thinned : s.Thinned s' allowed)
    (orderly : s.Orderly [] []) (orderly' : s'.Orderly [] []) (paced : s.Paced) : s'.Paced := by
  obtain ⟨reduced, each, _⟩ := thinned
  have spared : ∀ id ∈ s'.requests.values, Spared s s' id := by
    intro id member
    rcases each id with spared | past
    · exact spared
    · exact absurd member past.unregistered
  have running : s'.running.Sublist s.running := reduced.queues .running
  have front : (s'.running ++ s'.preempted).Sublist (s.running ++ s.preempted) :=
    running.append (reduced.queues .preempted)
  constructor
  case sequences =>
    rw [reduced.config]
    exact running.length_le.trans paced.sequences
  case tokens =>
    rw [reduced.config]
    exact running.length_le.trans paced.tokens
  case uncomputed =>
    intro id runs
    have before : id ∈ s.running := running.subset runs
    have status := (orderly.lined.running id before).2
    rw [(spared id (orderly'.mem_values .running runs)).kept (by simp [status])]
    exact paced.uncomputed id before
  case pending =>
    intro id member
    exact (paced.pending id (reduced.requests id member)).trans_le (spared id member).uncomputed
  case below =>
    intro id member
    have account := (spared id member).account
    rw [Sequence.completion_of_account account, Sequence.sampling_of_account account]
    exact paced.below id (reduced.requests id member)
  case unstarted =>
    intro id waits
    rcases each id with spared | past
    · have waited : (s.cache.sequence id).status = .waiting := spared.status.symm.trans waits
      have same := spared.kept (by simp [waited])
      rw [same]
      exact paced.unstarted id waited
    · have terminal := past.terminal
      rw [waits] at terminal
      cases terminal
  case ranked => exact reduced.ranked paced.ranked front

end PagedServing.Scheduler
