import PagedServing.Proofs.Scheduler.Retreat
import PagedServing.Proofs.Scheduler.Sessions

/-! # The discipline of the queues

Every request stands in the queue of its status, and each queue is in the order of arrival, whenever
the requests arrived. Planning lets nobody overtake: who came last is preempted first, and nobody
new is let run while somebody who was preempted has to wait.
-/

namespace PagedServing.Scheduler

variable {ω : Type} {config : Config} {device : Device ω} {s s' s₁ m : Scheduler} {id : SeqId}
  {plan : Plan}

theorem Constructed.waiting_ranked (constructed : s.Constructed s') (orderly : s.Orderly [] [])
    (ranked : s.Ranked s.waiting) : s'.Ranked s'.waiting := by
  have same : s'.waiting = s.waiting := constructed.unmoved.queues .waiting
  rw [same]
  exact ranked_of_same ranked fun id waits =>
    constructed.others id (orderly.lined.waiting id waits).1

theorem TakenUp.waiting_ranked (taken : s.TakenUp s' id) (fresh : s.Fresh id)
    (orderly : s.Orderly [] []) (orderly' : s'.Orderly [] []) (ranked : s.Ranked s.waiting) :
    s'.Ranked s'.waiting := by
  have ranked' : s'.Ranked s.waiting := ranked_of_same ranked fun id _ => taken.sequences id
  rw [taken.waiting]
  refine ranked'.queued orderly'.sound ((taken.knows id).mpr fresh.knows) (fun other waits => ?_)
    fresh.outside
  exact (taken.knows other).mpr (orderly.lined.waiting other waits).1

theorem Served.waiting_ranked (served : s.Served s') (orderly : s.Orderly [] [])
    (ranked : s.Ranked s.waiting) : s'.Ranked s'.waiting := by
  have orderly' := (served.orderly orderly).1
  cases served with
  | constructed takes => exact (create_orderly orderly takes).2.2.waiting_ranked orderly ranked
  | taken fresh =>
      rcases (add_orderly orderly fresh).2.2 with kept | taken
      · exact kept.reduced.ranked ranked (kept.reduced.queues .waiting)
      · exact taken.waiting_ranked fresh orderly orderly' ranked
  | aborted name =>
      obtain ⟨_, _, _, thinned⟩ := (abort_returns orderly name).after
      exact thinned.reduced.ranked ranked (thinned.reduced.queues .waiting)
  | released reason =>
      obtain ⟨_, _, _, thinned, _⟩ := (releaseAll_returns orderly reason).after
      exact thinned.reduced.ranked ranked (thinned.reduced.queues .waiting)

theorem Driven.Round.waiting_ranked {d d' : Driven ω} (round : Driven.Round device d d')
    (ranked : d.scheduler.Ranked d.scheduler.waiting) : d'.scheduler.Ranked d'.scheduler.waiting := by
  obtain ⟨_, _, assembled, _, turned⟩ := round
  have planned := (assembled.steady.ranked ranked).sublist assembled.waiting.sublist
  exact turned.reduced.ranked planned (turned.reduced.queues .waiting)

/-- One sequence changes its queue while an iteration is planned. The last that runs becomes the
    first that is preempted, the first that is preempted becomes the last that runs, or, if nobody
    is preempted, the first that waits takes its place among those that run. -/
inductive Shift (q q' : Status → List SeqId) : Prop where
  | preempted (id : SeqId) (running : q .running = q' .running ++ [id])
      (preempted : q' .preempted = id :: q .preempted) (waiting : q' .waiting = q .waiting)
  | resumed (id : SeqId) (preempted : q .preempted = id :: q' .preempted)
      (running : q' .running = q .running ++ [id]) (waiting : q' .waiting = q .waiting)
  | admitted (id : SeqId) (nobody : q .preempted = []) (still : q' .preempted = [])
      (waiting : q .waiting = id :: q' .waiting)
      (running : (q' .running).Perm (id :: q .running))

theorem Retreat.shift (retreat : s.Retreat s' id) (ranked : s.Ranked (s.running ++ s.preempted)) :
    Shift s.queueOf s'.queueOf :=
  .preempted id retreat.running (retreat.preempted_first ranked) retreat.waiting

theorem Entered.shift {plan' : Plan} (entered : s.Entered s' plan plan' id)
    (ranked : s.Ranked (s.running ++ s.preempted)) : Shift s.queueOf s'.queueOf := by
  rcases entered.queue with ⟨preempted, waiting⟩ | ⟨nobody, still, waiting⟩
  · exact .resumed id preempted (entered.resumed_last ranked preempted) waiting
  · exact .admitted id nobody still waiting entered.running_perm

theorem Retreated.shifts (retreated : s.Retreated s')
    (ranked : s.Ranked (s.running ++ s.preempted)) :
    Relation.ReflTransGen Shift s.queueOf s'.queueOf := by
  induction retreated with
  | refl => exact .refl
  | tail before last ih =>
      obtain ⟨id, retreat⟩ := last
      obtain ⟨steady, _, front⟩ := Retreated.keeps before ranked
      exact ih.tail (retreat.shift (front ▸ steady.ranked ranked))

theorem Advanced.shifts {plan' : Plan} (advanced : Advanced (s, plan) (s', plan'))
    (ranked : s.Ranked (s.running ++ s.preempted)) :
    Relation.ReflTransGen Shift s.queueOf s'.queueOf := by
  refine (advanced.induct (motive := fun t _ => t.Ranked (t.running ++ t.preempted) ∧
    Relation.ReflTransGen Shift s.queueOf t.queueOf) ⟨ranked, .refl⟩ ?_).2
  rintro t t' _ _ id entered ⟨ranked, shifts⟩
  exact ⟨entered.front ranked, shifts.tail (entered.shift ranked)⟩

theorem Retreated.settled {plan' : Plan} (retreated : s.Retreated s₁)
    (ranked : s.Ranked (s.running ++ s.preempted)) (advanced : Advanced (s₁, s₁.claims) (m, plan')) :
    s₁ = s ∨ m = s₁ := by
  rcases Relation.ReflTransGen.cases_tail retreated with same | ⟨t, before, id, retreat⟩
  · exact Or.inl same
  · right
    obtain ⟨steady, _, front⟩ := Retreated.keeps before ranked
    have first := retreat.preempted_first (front ▸ steady.ranked ranked)
    rcases Relation.ReflTransGen.cases_head advanced with same | ⟨next, ⟨other, entered⟩, _⟩
    · exact (congrArg Prod.fst same).symm
    · exfalso
      rcases entered.queue with ⟨head, _⟩ | ⟨nobody, _⟩
      · obtain ⟨rfl, _⟩ := List.cons.inj (first.symm.trans head)
        cases retreat.stuck.symm.trans entered.start
      · cases first.symm.trans nobody

/-- How planning rearranges the queues. -/
structure Rearranged (s s' : Scheduler) : Prop where
  shifts : Relation.ReflTransGen Shift s.queueOf s'.queueOf
  /-- Nobody who waits is let run before those that are preempted and those that came earlier. -/
  admitted : ∀ id ∈ s.waiting, id ∈ s'.running →
    s'.preempted = [] ∧ ∀ other ∈ s'.waiting, s.precedes id other = true
  /-- No more sequences are preempted than it takes to extend the others. -/
  preempted : ∃ victims, { s with preemptedLast := 0 }.Surplus victims ∧
    (∀ id ∈ s.running, id ∈ s'.preempted ↔ id ∈ victims) ∧ s'.preemptedLast = victims.length

theorem Rearranged.of_settled {plan' : Plan} (orderly : s.Orderly [] []) (orderly' : m.Orderly [] [])
    (front : s.Ranked (s.running ++ s.preempted)) (waiting : s.Ranked s.waiting)
    (retreated : { s with preemptedLast := 0 }.Retreated s₁) (orderly₁ : s₁.Orderly [] [])
    (room : s₁.demand ≤ s₁.cache.device.freeCount)
    (advanced : Advanced (s₁, s₁.claims) (m, plan')) : s.Rearranged m := by
  obtain ⟨steady, waiting₁, front₁⟩ := retreated.keeps front
  obtain ⟨victims, surplus, result, count⟩ := retreated.surplus orderly₁ room
  obtain ⟨back, started, preempted, waits, last, count'⟩ := advanced.admits
  have running : s.running = s₁.running ++ victims := result ▸ surplus.running.symm
  have preempted₁ : s₁.preempted = victims ++ s.preempted := by
    refine List.append_cancel_left (front₁.trans ?_)
    rw [← List.append_assoc, ← running]
  constructor
  case shifts =>
    exact (retreated.shifts front).trans (advanced.shifts (front₁ ▸ steady.ranked front))
  case admitted =>
    intro id member runs
    have split : s.waiting = started ++ m.waiting := waiting₁.symm.trans waits
    rw [split] at member waiting
    have runs : id ∈ m.queueOf .running := runs
    have among : id ∈ started := (List.mem_append.mp member).resolve_right fun left => by
      have left : id ∈ m.queueOf .waiting := left
      cases orderly'.lined.only runs left
    exact ⟨last (List.ne_nil_of_mem among), (List.pairwise_append.mp waiting).2.2 id among⟩
  case preempted =>
    refine ⟨victims, surplus, fun id runs => ⟨fun shelved => ?_, fun among => ?_⟩, ?_⟩
    · have before : id ∈ s₁.preempted := preempted ▸ List.mem_append_right back shelved
      rw [preempted₁] at before
      refine (List.mem_append.mp before).resolve_right fun old => ?_
      have runs : id ∈ s.queueOf .running := runs
      have old : id ∈ s.queueOf .preempted := old
      cases orderly.lined.only runs old
    · rcases retreated.settled front advanced with same | same
      · have nobody : victims = [] := by
          rw [same] at running
          exact List.self_eq_append_right.mp running
        simp [nobody] at among
      · rw [same, preempted₁]
        exact List.mem_append_left _ among
    · rw [count', count, Nat.zero_add]

theorem schedule_rearranged (orderly : s.Orderly [] [])
    (front : s.Ranked (s.running ++ s.preempted)) (waiting : s.Ranked s.waiting) :
    schedule.Returns s fun _ s' => s.Rearranged s' := by
  rw [schedule_eq, Action.returns_bind]
  refine (arrange_returns orderly).weaken ?_
  rintro ⟨swapOut, plan⟩ m ⟨_, _, retreated, orderly₁, _, room, _, advanced, orderly₂, _, _⟩
  refine (assemble_returns orderly₂ swapOut plan).weaken ?_
  rintro b s' ⟨a, c, _, rfl, _⟩
  obtain ⟨shifts, admitted, preempted⟩ :=
    Rearranged.of_settled orderly orderly₂ front waiting retreated orderly₁ room advanced
  exact ⟨shifts, admitted, preempted⟩

namespace Session

variable {r r' : Session ω} {c : Call} {may : Session ω → Call → Prop}

theorem perform_waiting_ranked (regular : r.Regular config) (valid : device.Valid)
    (proper : c.Proper r.scheduler) (ranked : r.scheduler.Ranked r.scheduler.waiting) :
    (r.perform device c).scheduler.Ranked (r.perform device c).scheduler.waiting := by
  by_cases step : c = .step
  · subst step
    obtain ⟨result, d, run, _, _, round⟩ :=
      Driven.step_round regular.orderly regular.paced valid
    simp only [perform, run]
    exact round.waiting_ranked ranked
  by_cases take : c = .takePending
  · subst take
    exact ranked
  · exact (perform_served device proper step take).waiting_ranked regular.orderly ranked

theorem Leads.waiting_ranked (leads : Leads device may r r') (regular : r.Regular config)
    (valid : device.Valid) (ranked : r.scheduler.Ranked r.scheduler.waiting) :
    r'.scheduler.Ranked r'.scheduler.waiting := by
  induction leads with
  | refl => exact ranked
  | call before proper _ ih =>
      exact perform_waiting_ranked (before.regular regular valid).1 valid proper ih

/-- Every request stands in the queue of its status only, whatever has ended stands in none, and the
    queues are in order, the running sequences before the preempted ones. -/
structure Disciplined (r : Session ω) : Prop where
  requests : ∀ id, id ∈ r.scheduler.requests.values ↔
    r.TookIn id ∧ (r.scheduler.sequence id).isFinished = false
  live : ∀ id ∈ r.scheduler.requests.values, ∀ status,
    id ∈ r.scheduler.queueOf status ↔ (r.scheduler.sequence id).status = status
  ended : ∀ id, (r.scheduler.sequence id).isFinished = true → ∀ status,
    id ∉ r.scheduler.queueOf status
  ranked : ∀ status, r.scheduler.Ranked (r.scheduler.queueOf status)
  layered : ∀ first ∈ r.scheduler.running, ∀ later ∈ r.scheduler.preempted,
    r.scheduler.precedes first later = true

theorem Regular.disciplined (regular : r.Regular config) (enrolled : r.Enrolled)
    (waiting : r.scheduler.Ranked r.scheduler.waiting) : r.Disciplined := by
  have orderly := regular.orderly
  obtain ⟨running, preempted, layered⟩ := List.pairwise_append.mp regular.paced.ranked
  constructor
  case requests =>
    refine fun id => ⟨fun member => ⟨enrolled.requests id member, ?_⟩, fun ⟨tookIn, live⟩ => ?_⟩
    · exact Bool.eq_false_iff.mpr fun terminal => orderly.unregistered terminal member
    · exact (enrolled.admitted id tookIn).resolve_right fun terminal => by simp [live] at terminal
  case live => exact fun id member => orderly.stands_iff member
  case ended =>
    exact fun id terminal status queued =>
      orderly.unregistered terminal (orderly.mem_values status queued)
  case ranked =>
    intro status
    cases status
    case waiting => exact waiting
    case running => exact running
    case preempted => exact preempted
    case finished => exact List.Pairwise.nil
    case cancelled => exact List.Pairwise.nil
  case layered => exact layered

/-- Whatever is called, and whenever requests arrive: the queues are in order in every state, and
    planning an iteration lets nobody overtake. -/
theorem queues_disciplined (valid : device.Valid) {threshold : Int} {w : ω}
    (run : Leads device may (opened config threshold w) r) :
    r.Disciplined ∧ schedule.Returns r.scheduler fun _ s' => r.scheduler.Rearranged s' := by
  have started := opened_regular config threshold w
  have regular := (run.regular started valid).1
  have waiting := run.waiting_ranked started valid List.Pairwise.nil
  have enrolled := run.enrolled started valid (opened_enrolled config threshold w)
  exact ⟨regular.disciplined enrolled waiting,
    schedule_rearranged regular.orderly regular.paced.ranked waiting⟩

/-- A request that came late, but arrived earlier, runs in front of the other one, which is preempted
    when blocks are short. -/
theorem queues_disciplined_late :
    let calls : List Call := [.create { prompt := [5, 6], blockSize := 1 }, .add 0, .step,
      .create { prompt := [5], blockSize := 1, arrival := some 0 }, .add 1] ++ .replicate 4 .step
    let r := (opened (smallConfig .swap true) 20 ()).performAll sevens calls
    Allowed sevens (fun _ _ => True) (opened (smallConfig .swap true) 20 ()) calls ∧
      r.scheduler.running = [1, 0] ∧ r.Disciplined ∧ schedule.Returns r.scheduler fun _ s' =>
        (s'.running = [1] ∧ s'.preempted = [0]) ∧ r.scheduler.Rearranged s' := by
  intro calls r
  have made : Allowed sevens (fun _ _ => True) (opened (smallConfig .swap true) 20 ()) calls := by
    decide +kernel
  have outcome : schedule.Returns r.scheduler fun _ s' => s'.running = [1] ∧ s'.preempted = [0] := by
    decide +kernel
  obtain ⟨disciplined, rearranged⟩ := queues_disciplined sevens_valid made.leads
  exact ⟨made, by decide +kernel, disciplined, outcome.also rearranged.ensures⟩

/-- A token beyond a word of 32 bits cannot be hashed. A request whose prompt has one leaves the
    queue all the same, so that it waits in none. -/
theorem queues_undisciplined_beyond_word :
    let calls : List Call := [.create { prompt := [2147483648], blockSize := 1 }, .add 0, .step]
    let r := (opened (smallConfig .recompute true) 20 ()).performAll sevens calls
    0 ∈ r.scheduler.requests.values ∧ (r.scheduler.sequence 0).status = .waiting ∧
      r.scheduler.line = [] ∧ ¬ r.Disciplined := by
  intro calls r
  obtain ⟨member, waits, nobody⟩ : 0 ∈ r.scheduler.requests.values ∧
      (r.scheduler.sequence 0).status = .waiting ∧ r.scheduler.line = [] := by decide +kernel
  refine ⟨member, waits, nobody, fun disciplined => ?_⟩
  have queued : 0 ∈ r.scheduler.waiting := (disciplined.live 0 member .waiting).mpr waits
  have lined : 0 ∈ r.scheduler.line := List.mem_append_right _ queued
  rw [nobody] at lined
  cases lined

end Session

end PagedServing.Scheduler
