import PagedServing.Proofs.Scheduler.Consistency

/-! # What a broken-off iteration loses

An iteration takes the pending outputs before its batch is committed, and gathers the others while
it commits. If the commit is broken off, both are gone: nothing is pending afterwards, and the
sequences in front count as handed over.
-/

namespace PagedServing.Scheduler

variable {ω : Type} {config : Config} {device : Device ω} {s s' : Scheduler} {id : SeqId}
  {turns : List Turn} {outputs : List Output} {before : List (SeqId × Sample)}

/-- The tokens of a sequence that are still to be handed over: those in pending outputs under its
    name, and those that its next output brings. -/
def outstanding (s : Scheduler) (id : SeqId) : List Int :=
  (s.pending.filter (·.requestId = (s.sequence id).requestId)).flatMap (·.tokens) ++
    (s.sequence id).fresh

/-- From one state to another nothing was lost that is to be handed over. -/
structure Lossless (s s' : Scheduler) : Prop where
  pending : ∀ o ∈ s.pending, o ∈ s'.pending
  /-- Whoever has ended has a last output, -/
  ended : ∀ id ∈ s.requests.values, (s'.sequence id).isFinished = true →
    ∃ o ∈ s'.pending, o.requestId = (s.sequence id).requestId ∧
      o.reason = (s'.sequence id).finishReason
  /-- and whatever was generated is to be handed over once, after what was before. -/
  tokens : ∀ id ∈ s.requests.values, ∃ more,
    (s'.sequence id).completion = (s.sequence id).completion ++ more ∧
      s'.outstanding id = s.outstanding id ++ more

theorem Even.outstanding_eq (even : s.Even) (id : SeqId) :
    s.outstanding id =
      (s.pending.filter (·.requestId = (s.sequence id).requestId)).flatMap (·.tokens) := by
  have all : (s.sequence id).emitted = (s.sequence id).completion.length := even id
  rw [outstanding, Sequence.fresh, all, List.drop_length, List.append_nil]

theorem Even.outstanding_append (even : s.Even) (even' : s'.Even)
    (pending : s'.pending = s.pending ++ outputs) (id : SeqId)
    (origin : (s'.sequence id).origin = (s.sequence id).origin) :
    s'.outstanding id = s.outstanding id ++
      (outputs.filter (·.requestId = (s.sequence id).requestId)).flatMap (·.tokens) := by
  have name : (s'.sequence id).requestId = (s.sequence id).requestId :=
    congrArg Origin.requestId origin
  rw [even.outstanding_eq, even'.outstanding_eq, pending, name, List.filter_append,
    List.flatMap_append]

theorem Even.output_tokens (even : s.Even) (turn : Turn) :
    (s.ledger.quiet.output turn).tokens = turn.tokens := by
  have all : (s.ledger.transcript turn.id).emitted =
      (s.ledger.transcript turn.id).completion.length := even turn.id
  show ((s.ledger.transcript turn.id).completion ++ turn.tokens).drop
    (s.ledger.transcript turn.id).emitted = turn.tokens
  rw [all, List.drop_left]

theorem lossless_of_heard (heard : Heard s.ledger.quiet turns outputs s'.ledger.quiet)
    (pending : s'.pending = s.pending ++ outputs) (named : s.ledger.quiet.Named) (even : s.Even)
    (orderly' : s'.Orderly [] [] True) (members : ∀ turn ∈ turns, turn.id ∈ s.requests.values)
    (distinct : (turns.map (·.id)).Nodup) : s.Lossless s' := by
  have grown := fun id =>
    even.outstanding_append (heard.even even) pending id (heard.origin id)
  have named_eq : ∀ id, (s.sequence id).requestId = s.ledger.quiet.name id := fun _ => rfl
  constructor
  case pending =>
    intro o member
    rw [pending]
    exact List.mem_append_left _ member
  case ended =>
    intro id member terminal
    have gone : id ∉ s'.requests.values := orderly'.unregistered terminal
    by_cases spoke : id ∈ turns.map (·.id)
    · obtain ⟨turn, among, rfl⟩ := List.mem_map.mp spoke
      obtain ⟨transcript, registered, alone⟩ := heard.own named members distinct among
      obtain ⟨reason, ends⟩ :=
        Option.ne_none_iff_exists'.mp fun goesOn => gone (registered.mpr goesOn)
      have spoken : s.ledger.quiet.output turn ∈ outputs :=
        List.mem_of_mem_filter (alone ▸ List.mem_singleton_self _)
      have why : (s'.sequence turn.id).finishReason = (s.ledger.quiet.drafted turn).reason :=
        congrArg Transcript.reason transcript
      refine ⟨_, pending ▸ List.mem_append_right _ spoken, rfl, ?_⟩
      rw [why]
      simp [Ledger.output, Ledger.drafted, ends]
    · obtain ⟨_, registered⟩ := heard.others named members distinct spoke
      exact absurd (registered.mpr member) gone
  case tokens =>
    intro id member
    by_cases spoke : id ∈ turns.map (·.id)
    · obtain ⟨turn, among, rfl⟩ := List.mem_map.mp spoke
      obtain ⟨transcript, _, alone⟩ := heard.own named members distinct among
      refine ⟨turn.tokens, congrArg Transcript.completion transcript, ?_⟩
      rw [grown, named_eq, alone, List.flatMap_singleton, even.output_tokens]
    · obtain ⟨same, _⟩ := heard.others named members distinct spoke
      have silent := named.silent heard.names members member spoke
      refine ⟨[], (congrArg Transcript.completion same).trans (List.append_nil _).symm, ?_⟩
      rw [grown, named_eq, silent, List.flatMap_nil]

theorem BrokenOff.lossless_iff (broken : BrokenOff { s with pending := [] } s' before)
    (orderly : s.Orderly [] [] True) (even : s.Even)
    (members : ∀ e ∈ before, e.1 ∈ s.requests.values) (distinct : (before.map (·.1)).Nodup) :
    s.Lossless s' ↔ s.pending = [] ∧ before = [] := by
  obtain ⟨orderly', _, settled, outputs, heard⟩ := broken
  have heard : Heard s.ledger.quiet (s.ledger.answers before) outputs s'.ledger := heard
  have nothing : s'.pending = [] := heard.pending
  have even' : s'.Even := heard.even even
  have blank : ∀ id, s'.outstanding id = [] := fun id => by
    rw [even'.outstanding_eq, nothing]
    rfl
  constructor
  · intro lossless
    refine ⟨List.eq_nil_iff_forall_not_mem.mpr fun o member => ?_,
      List.eq_nil_iff_forall_not_mem.mpr fun e among => ?_⟩
    · have kept := lossless.pending o member
      simp [nothing] at kept
    -- a token that came is not to be handed over any more, and no failure has a last output
    have named := orderly.named
    have requests : ∀ turn ∈ s.ledger.answers before, turn.id ∈ s.requests.values := by
      intro turn taken
      obtain ⟨e, among, rfl⟩ := List.mem_map.mp taken
      simpa using members e among
    obtain ⟨transcript, registered, _⟩ := heard.own named requests
      (Ledger.answers_ids _ before ▸ distinct) (Ledger.mem_answers among)
    rw [Ledger.answer_id] at transcript registered
    cases success : e.2.success with
    | true =>
        obtain ⟨more, completion, all⟩ := lossless.tokens e.1 (members e among)
        rw [blank, eq_comm, List.append_eq_nil_iff] at all
        have longer : (s'.sequence e.1).completion =
            (s.sequence e.1).completion ++ [e.2.token] := by
          refine (congrArg Transcript.completion transcript).trans ?_
          simp [Transcript.delivered, Ledger.drafted, Ledger.answer, success]
          rfl
        rw [longer, all.2] at completion
        simp at completion
    | false =>
        have ends : (s.ledger.answer e.1 e.2).ending ≠ none := by simp [Ledger.answer, success]
        have terminal := (settled e among).resolve_left fun member => ends (registered.mp member)
        obtain ⟨o, member, _⟩ := lossless.ended e.1 (members e among) terminal
        simp [nothing] at member
  · rintro ⟨empty, rfl⟩
    have silent : outputs = [] := List.map_eq_nil_iff.mp heard.names
    refine lossless_of_heard heard.quiet ?_ orderly.named even orderly'
      (fun _ none => absurd none List.not_mem_nil) List.nodup_nil
    rw [nothing, empty, silent]
    rfl

namespace Session

variable {r : Session ω}

/-- A device has a sample for each sequence of a batch. If all its numbers are tokens, the iteration
    hands over what was pending and what it brings. Otherwise it is broken off at the first number
    that is none, and afterwards nothing is to be handed over of any sequence. So nothing is lost
    only if nothing was pending and that number was the first of all. -/
theorem step_lossless_iff (bounded : device.Bounded config) {threshold : Int} {w : ω}
    (run : Endures device (opened config threshold w) r) :
    prepare.Returns r.scheduler fun p m => ∀ samples,
      (device.execute p.batch (m.members p.batch) r.driven.device).1.result = .ok samples →
      samples.length = p.batch.size →
      ((∀ e ∈ p.batch.sequences.zip samples, ¬ e.2.Refused) ∧
        (Driven.step (some device)).Returns r.driven fun result d => ∃ outputs,
          result.outputs = r.scheduler.pending ++ outputs ∧
          Heard r.scheduler.ledger.quiet
            (r.scheduler.ledger.answers (p.batch.sequences.zip samples)) outputs
            d.scheduler.ledger) ∨
      ∃ before sample, FirstRefused (p.batch.sequences.zip samples) before sample ∧
        (Driven.step (some device)).Fails r.driven fun fault d =>
          fault = .negativeToken sample.token ∧
          (∃ outputs, Heard r.scheduler.ledger.quiet (r.scheduler.ledger.answers before) outputs
            d.scheduler.ledger) ∧
          (d.scheduler.pending = [] ∧ ∀ id, d.scheduler.outstanding id = []) ∧
          (r.scheduler.Lossless d.scheduler ↔ r.scheduler.pending = [] ∧ before = []) := by
  obtain ⟨orderly, rfl, even⟩ := run.resilient bounded
  obtain ⟨p, m, prepared, planned, _⟩ := prepare_returns orderly
  refine ⟨p, m, prepared, fun samples answer count => ?_⟩
  rcases Driven.step_outcome orderly bounded prepared with
    ⟨tokens, returns⟩ | ⟨samples', before, sample, answer', _, first, fails⟩
  · refine Or.inl ⟨tokens samples answer count, ?_⟩
    refine (returns.also (Driven.step_heard orderly)).weaken ?_
    rintro result d ⟨_, p', m', turns, outputs, prepared', _, handed, heard, _, answers⟩
    cases prepared.symm.trans prepared'
    obtain rfl : turns = _ := answers samples answer count
    exact ⟨outputs, handed, heard⟩
  -- broken off: what was pending was taken out, and the members in front were heard in vain
  · cases answer.symm.trans answer'
    obtain ⟨fault, d, run, same, broken, _⟩ := fails
    have broken : BrokenOff { r.scheduler with pending := [] } d.scheduler before := broken
    obtain ⟨outputs, heard⟩ := broken.heard
    have nothing : d.scheduler.pending = [] := heard.pending
    have even' : d.scheduler.Even := heard.even even
    obtain ⟨_, quiet⟩ := prepare_ledger orderly p m prepared
    have requests : m.requests = r.scheduler.requests := congrArg Ledger.requests quiet
    obtain ⟨id, after, place⟩ := first.place
    have names := Batch.sequences_of_zip count place
    rw [List.map_append] at names
    refine Or.inr ⟨before, sample, first, fault, d, run, same, ⟨outputs, heard⟩,
      ⟨nothing, fun id => ?_⟩, broken.lossless_iff orderly even (fun e among => ?_) ?_⟩
    · rw [even'.outstanding_eq, nothing]
      rfl
    · have member : e.1 ∈ p.batch.sequences :=
        names ▸ List.mem_append_left _ (List.mem_map_of_mem among)
      exact requests ▸ planned.orderly.mem_values .running (planned.running e.1 member)
    · exact (List.nodup_append.mp (names ▸ planned.nodup)).1

theorem step_lossless_iff_pair :
    prepare.Returns pair.scheduler fun p _ => p.batch.sequences = [0, 1] ∧
      ∃ before sample, FirstRefused [(0, { token := 7 }), (1, { token := -1 })] before sample ∧
        (Driven.step (some stumbling)).Fails pair.driven fun fault d =>
          fault = .negativeToken sample.token ∧
          (pair.scheduler.Lossless d.scheduler ↔ pair.scheduler.pending = [] ∧ before = []) := by
  have batch : prepare.Returns pair.scheduler fun p _ => p.batch.sequences = [0, 1] := by
    decide +kernel
  refine (batch.also (step_lossless_iff (stumbling_bounded _) pair_endures).ensures).weaken ?_
  rintro p m ⟨sequences, outcome⟩
  refine ⟨sequences, ?_⟩
  have answer : (stumbling.execute p.batch (m.members p.batch) pair.driven.device).1.result =
      .ok [{ token := 7 }, { token := -1 }] := by
    simp [stumbling, sequences]
  have count : [({ token := 7 } : Sample), { token := -1 }].length = p.batch.size := by
    simp [Batch.size, sequences]
  rcases outcome _ answer count with ⟨tokens, _⟩ | ⟨before, sample, first, fails⟩
  · rw [sequences] at tokens
    exact absurd ⟨rfl, by decide⟩ (tokens (1, { token := -1 }) (by simp))
  · rw [sequences] at first
    obtain ⟨fault, d, run, same, _, _, lossless⟩ := fails
    exact ⟨before, sample, first, fault, d, run, same, lossless⟩

/-- The second of two requests gets a number that is no token, and a third one was cancelled before.
    The first request ends in the same iteration, and its token is never handed over. Nobody is told
    that it has ended, or that the third one was cancelled. -/
theorem step_loses_beside_cancelled :
    let r := pair.performAll stumbling
      [.create { prompt := [6], blockSize := 1 }, .add 2, .abort "2"]
    Endures stumbling (opened (smallConfig .swap true) 20 ()) r ∧
      r.scheduler.pending.map (·.requestId) = ["2"] ∧
      (Driven.step (some stumbling)).Fails r.driven fun fault d =>
        (fault = .negativeToken (-1) ∧ (d.scheduler.sequence 0).completion = [7] ∧
          (d.scheduler.sequence 0).isFinished = true ∧ d.scheduler.outstanding 0 = [] ∧
          d.scheduler.pending.map (·.requestId) = []) ∧
        ¬ r.scheduler.Lossless d.scheduler := by
  intro r
  have made : AllProper stumbling pair
      [.create { prompt := [6], blockSize := 1 }, .add 2, .abort "2"] := by
    decide +kernel
  have cancelled : r.scheduler.pending.map (·.requestId) = ["2"] := by decide +kernel
  have lost : (Driven.step (some stumbling)).Fails r.driven fun fault d =>
      fault = .negativeToken (-1) ∧ (d.scheduler.sequence 0).completion = [7] ∧
        (d.scheduler.sequence 0).isFinished = true ∧ d.scheduler.outstanding 0 = [] ∧
        d.scheduler.pending.map (·.requestId) = [] := by
    decide +kernel
  refine ⟨pair_endures.trans made.endures, cancelled, ?_⟩
  obtain ⟨fault, d, run, same, completion, terminal, blank, nothing⟩ := lost
  refine ⟨fault, d, run, ⟨same, completion, terminal, blank, nothing⟩, fun lossless => ?_⟩
  obtain ⟨o, member, _⟩ := List.mem_map.mp (cancelled ▸ List.mem_singleton_self "2")
  rw [List.map_eq_nil_iff] at nothing
  have kept := lossless.pending o member
  simp [nothing] at kept

end Session

end PagedServing.Scheduler
