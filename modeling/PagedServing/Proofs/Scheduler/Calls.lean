import PagedServing.Proofs.Scheduler.Hearing
import PagedServing.Proofs.Scheduler.Intake
import PagedServing.Proofs.Scheduler.Iteration

/-! # What is heard of a call

Giving requests up and running an iteration let sequences have turns, which are heard at once or
are still pending. Taking a request in registers it, and nothing is heard.
-/

namespace PagedServing

/-- The turn in which a request is given up. -/
def Turn.last (reason : FinishReason) (id : SeqId) : Turn :=
  { id, ending := some reason }

/-- The ledger without the outputs that nobody took yet. -/
def Ledger.quiet (l : Ledger) : Ledger :=
  { l with pending := [] }

theorem Heard.quiet {l l' : Ledger} {turns : List Turn} {outputs : List Output}
    (heard : Heard l turns outputs l') : Heard l.quiet turns outputs l'.quiet := by
  induction heard with
  | nil l => exact .nil _
  | cons rest ih => exact .cons ih

namespace Scheduler

variable {s : Scheduler} {id : SeqId} {slack : Prop}

theorem abort_heard (orderly : s.Orderly [] [] slack) (name : String) :
    (abort name).Ensures s fun _ s' => ∃ outputs, s'.pending = s.pending ++ outputs ∧
      Heard s.ledger.quiet ((s.requests.get? name).toList.map (.last .cancelled)) outputs
        s'.ledger.quiet := by
  simp only [abort, Action.ensures_bind, Action.ensures_get]
  cases found : s.requests.get? name with
  | none => exact Action.ensures_pure.mpr ⟨[], (List.append_nil _).symm, .nil _⟩
  | some id =>
      have knows := orderly.knows (OrderedMap.mem_values_of_get? found)
      refine (leaveQueue_keeps id).bind_ensures fun _ s₁ left => ?_
      rw [Action.ensures_bind]
      refine (finish_heard (knows_of_count (congrArg Ledger.count left) knows)).weaken ?_
      rintro output s₂ ⟨rfl, ended⟩
      rw [Action.ensures_bind, Action.ensures_modify]
      refine (report_keeps _ _).bind_ensures fun _ s₃ reported => Action.ensures_pure.mpr ?_
      rw [left] at ended reported
      refine ⟨[s.ledger.output (.last .cancelled id)], ?_, ?_⟩
      · have pending : s₃.pending = s₂.pending ++ [s.ledger.output (.last .cancelled id)] :=
          congrArg Ledger.pending reported
        have before : s₂.pending = s.pending := congrArg Ledger.pending ended
        rw [pending, before]
      · have same : s₃.ledger.quiet = (s.ledger.after (.last .cancelled id)).quiet := by
          rw [reported]
          exact (rfl : _ = s₂.ledger.quiet).trans (congrArg Ledger.quiet ended)
        rw [same]
        exact (Heard.cons (.nil (s.ledger.after (.last .cancelled id)))).quiet

theorem releaseAll_heard (orderly : s.Orderly [] [] slack) (reason : FinishReason) :
    (releaseAll reason).Ensures s fun _ s' => ∃ outputs, s'.pending = s.pending ++ outputs ∧
      Heard s.ledger.quiet (s.requests.values.map (.last reason)) outputs s'.ledger.quiet := by
  simp only [releaseAll, Action.ensures_bind, Action.ensures_get]
  refine (finishEach_heard reason s.requests.values fun id => orderly.knows).weaken ?_
  intro outputs s₁ heard
  rw [Action.ensures_modify, Action.ensures_pure]
  refine ⟨outputs, ?_, heard.quiet⟩
  have before : s₁.pending = s.pending := heard.pending
  exact congrArg (· ++ outputs) before

theorem add_ledger : (add id).Ensures s fun _ s' =>
    s.checkAdmission (s.cache.sequence id) = .ok () ∧
      s'.ledger = { s.ledger with requests := s.ledger.requests.insert (s.ledger.name id) id } := by
  simp only [add, Action.ensures_bind, Action.ensures_get]
  split
  · refine (report_keeps _ _).bind_ensures fun _ _ _ => Action.ensures_throw
  · rename_i accepted
    have waiting : (edit id fun q => { q with status := .waiting }).Keeps ledger :=
      edit_keeps fun _ => rfl
    refine waiting.bind_ensures fun _ s₁ same => Action.ensures_modify.mpr ⟨accepted, ?_⟩
    have name : (s.sequence id).requestId = s₁.ledger.name id := by
      rw [same]
      rfl
    rw [← same]
    exact Ledger.ext rfl rfl rfl (congrArg (s₁.requests.insert · id) name) rfl

namespace Driven

variable {ω : Type} {device : Device ω} {d : Driven ω} {slack : Prop}

theorem conclude_ledger {p : Prepared} {outputs : List Output} :
    (conclude p outputs).Ensures s fun result s' =>
      result.outputs = p.outputs ++ outputs ∧ s'.ledger = s.ledger := by
  simp only [conclude, Action.ensures_bind, Action.ensures_modify, Action.ensures_pure]
  exact ⟨trivial, rfl⟩

/-- What is heard of an iteration: what was pending, and the turns of sequences of the batch. If
    there is a sample for each, every sequence has a turn, in which its sample is committed. -/
theorem step_heard (orderly : d.scheduler.Orderly [] [] slack) :
    (step (some device)).Ensures d fun result d' => ∃ p m turns outputs,
      prepare d.scheduler = .ok p m ∧ m.ledger = d.scheduler.ledger.quiet ∧
      result.outputs = d.scheduler.pending ++ outputs ∧
      Heard d.scheduler.ledger.quiet turns outputs d'.scheduler.ledger ∧
      d.scheduler.ledger.Batched p.batch.sequences turns ∧
      ∀ samples, (device.execute p.batch (m.members p.batch) d.device).1.result = .ok samples →
        samples.length = p.batch.size →
        turns = (p.batch.sequences.zip samples).map fun e => d.scheduler.ledger.answer e.1 e.2 := by
  simp only [step, onScheduler, Action.ensures_bind, Action.ensures_demand, Action.ensures_within]
  rintro _ ⟨⟩ p m prepared
  obtain ⟨before, quiet⟩ := prepare_ledger orderly p m prepared
  obtain ⟨planned, _⟩ := (prepare_returns orderly).of_run prepared
  have knows : ∀ id ∈ p.batch.sequences, m.cache.Knows id := fun id among =>
    (planned.orderly.lined.running id (planned.running id among)).1
  unfold complete
  split
  · simp only [execute, onScheduler, Action.ensures_bind, Action.ensures_get, Action.ensures_set,
      Action.ensures_pure, Action.ensures_within]
    refine (settle_heard knows planned.nodup).weaken ?_
    rintro outputs s ⟨turns, heard, batched, answers⟩
    refine conclude_ledger.weaken ?_
    rintro result s' ⟨handed, same⟩
    rw [quiet] at heard batched answers
    exact ⟨p, m, turns, outputs, prepared, quiet, before ▸ handed, same ▸ heard,
      ⟨batched.among, batched.each⟩, answers⟩
  · rename_i idle
    have idle : p.hasWork = false := by simpa using idle
    have nobody := sequences_of_idle idle
    simp only [onScheduler, Action.ensures_within]
    refine conclude_ledger.weaken ?_
    rintro result s' ⟨handed, same⟩
    refine ⟨p, m, [], [], prepared, quiet, before ▸ handed, ?_, .nil _ _, fun _ _ _ => ?_⟩
    · rw [same, quiet]
      exact .nil _
    · simp [nobody]

end Driven

end Scheduler

end PagedServing
