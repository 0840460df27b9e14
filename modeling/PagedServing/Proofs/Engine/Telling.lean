import PagedServing.Proofs.Engine.Record
import PagedServing.Proofs.Engine.Serving

/-! # What clients are told

If callbacks do not fail, what is told of a request and what is still to be told of it are its
whole completion and then its end. The end is told once, and only then the request is forgotten.
-/

namespace PagedServing

open Scheduler (Call Driven Session)
open Scheduler.Session (Claimed Standing Told)

variable {ω : Type}

namespace Service

variable {config : Config} {s s' : Service ω} {host : Host ω} {id : SeqId} {requestId : String}

/-- The outputs of a request that clients have not been told of. -/
def untold (s : Service ω) (requestId : String) : List Output :=
  (s.phase.untold ++ s.engine.scheduler.pending).filter (·.requestId = requestId)

/-- Tokens that were handed over one piece after the other. -/
def pieces (requestId : String) (tokens : List (List Int)) : List Notice :=
  tokens.map (.tokens requestId)

/-- A sequence is not in flight any more: it has ended for a reason, and some pieces are its
    completion. -/
structure Complete (s : Service ω) (id : SeqId) (tokens : List (List Int)) (reason : FinishReason) :
    Prop where
  unposted : id ∉ s.engine.posted
  unregistered : id ∉ s.engine.scheduler.requests.values
  whole : tokens.flatten = (s.engine.scheduler.sequence id).completion
  finished : (s.engine.scheduler.sequence id).isFinished = true
  reason : (s.engine.scheduler.sequence id).finishReason = some reason

/-- How far clients were told of a sequence that was accepted under a name. -/
inductive Tells (s : Service ω) (id : SeqId) (requestId : String) : Prop where
  | posted (live : requestId ∈ s.engine.live) (waits : id ∈ s.engine.posted)
      (watched : watch id requestId s.record = .during [])
  | ongoing {tokens : List (List Int)} (live : requestId ∈ s.engine.live)
      (unposted : id ∉ s.engine.posted)
      (watched : watch id requestId s.record = .during (pieces requestId tokens))
      (whole : tokens.flatten ++ (s.untold requestId).flatMap (·.tokens) =
        (s.engine.scheduler.sequence id).completion)
      (ends : (s.untold requestId).filterMap (·.reason) =
        if id ∈ s.engine.scheduler.requests.values then []
        else (s.engine.scheduler.sequence id).finishReason.toList)
      (admitted : id ∈ s.engine.scheduler.requests.values ∨
        (s.engine.scheduler.sequence id).isFinished = true ∧
          (s.engine.scheduler.sequence id).finishReason ≠ none)
  | ended {tokens : List (List Int)} {reason : FinishReason} {o : Output} {rest : List Output}
      (live : requestId ∈ s.engine.live) (phase : s.phase = .forgetting o rest)
      (own : o.requestId = requestId)
      (watched : watch id requestId s.record =
        .during (pieces requestId tokens ++ [.ended requestId reason]))
      (complete : s.Complete id tokens reason)
  | forgotten {tokens : List (List Int)} {reason : FinishReason}
      (watched : told id requestId s.record =
        pieces requestId tokens ++ [.ended requestId reason, .forgotten requestId])
      (closed : (watch id requestId s.record).Current → requestId ∉ s.engine.live)
      (complete : s.Complete id tokens reason)

/-- What holds if callbacks do not fail. -/
structure Truthful (s : Service ω) : Prop where
  tells : ∀ id requestId, .accepted id requestId ∈ s.record → s.Tells id requestId
  /-- Whatever is in flight was accepted and is not forgotten. -/
  held : ∀ requestId ∈ s.engine.live, ∃ id, .accepted id requestId ∈ s.record ∧
    .forgotten requestId ∉ told id requestId s.record

theorem Complete.congr {tokens : List (List Int)} {reason : FinishReason}
    (complete : s.Complete id tokens reason)
    (posted : id ∈ s'.engine.posted → id ∈ s.engine.posted)
    (registered : id ∈ s'.engine.scheduler.requests.values →
      id ∈ s.engine.scheduler.requests.values)
    (same : s'.engine.scheduler.sequence id = s.engine.scheduler.sequence id) :
    s'.Complete id tokens reason where
  unposted := mt posted complete.unposted
  unregistered := mt registered complete.unregistered
  whole := same ▸ complete.whole
  finished := same ▸ complete.finished
  reason := same ▸ complete.reason

theorem Tells.congr (tells : s.Tells id requestId)
    (watched : watch id requestId s'.record = watch id requestId s.record)
    (live : requestId ∈ s'.engine.live ↔ requestId ∈ s.engine.live)
    (posted : id ∈ s'.engine.posted ↔ id ∈ s.engine.posted)
    (registered : id ∈ s'.engine.scheduler.requests.values ↔
      id ∈ s.engine.scheduler.requests.values)
    (same : s'.engine.scheduler.sequence id = s.engine.scheduler.sequence id)
    (tokens : (s'.untold requestId).flatMap (·.tokens) = (s.untold requestId).flatMap (·.tokens))
    (reasons : (s'.untold requestId).filterMap (·.reason) = (s.untold requestId).filterMap (·.reason))
    (phase : ∀ o rest, s.phase = .forgetting o rest → o.requestId = requestId → s'.phase = s.phase) :
    s'.Tells id requestId := by
  cases tells with
  | posted live' waits watched' =>
      exact .posted (live.mpr live') (posted.mpr waits) (watched.trans watched')
  | ongoing live' unposted watched' whole ends admitted =>
      refine .ongoing (live.mpr live') (mt posted.mp unposted) (watched.trans watched') ?_ ?_ ?_
      · rw [tokens, same]
        exact whole
      · rw [reasons, same, ends]
        simp only [registered]
      · rw [same, registered]
        exact admitted
  | ended live' phase' own watched' complete =>
      exact .ended (live.mpr live') ((phase _ _ phase' own).trans phase') own (watched.trans watched')
        (complete.congr posted.mp registered.mp same)
  | forgotten watched' closed complete =>
      refine .forgotten ?_ ?_ (complete.congr posted.mp registered.mp same)
      · rw [told, watched]
        exact watched'
      · rw [watched, live]
        exact closed

theorem Complete.called {c : Call} {device : Device ω} {tokens : List (List Int)}
    {reason : FinishReason} (complete : s.Complete id tokens reason) (called : Called device c s s')
    (regular : s.session.Regular config) (valid : device.Valid) : s'.Complete id tokens reason := by
  have scheduler := called.scheduler
  have told := Session.perform_told regular valid called.proper
  have onward := (Session.perform_onward regular valid called.proper).2
  refine complete.congr called.posted (fun member => ?_) ?_
  · rw [scheduler] at member
    rcases told.taken regular with ⟨-, fewer⟩ | ⟨new, adds, -, -, -, requests, -, -⟩
    · exact fewer id member
    · rw [requests, List.mem_append, List.mem_singleton] at member
      refine member.resolve_right fun same => complete.unposted ?_
      rcases called.taking with ⟨first, adds', posted⟩ | ⟨another, -⟩
      · obtain rfl : new = first := Call.add.inj (adds.symm.trans adds')
        rw [posted, same]
        exact List.mem_cons_self
      · exact absurd adds (another new)
  · rw [scheduler]
    exact onward.ended id complete.finished

theorem Tells.begun {device : Device ω} (called : Called device (.add id) s s')
    (upright : s.Upright config) (posted : s.engine.posted = id :: s'.engine.posted)
    (named : (s.engine.scheduler.sequence id).requestId = requestId)
    (live : requestId ∈ s'.engine.live) (watched : watch id requestId s'.record = .during [])
    (after : s'.untold requestId = s'.session.log.filter (·.requestId = requestId)) :
    s'.Tells id requestId := by
  obtain ⟨absent, -⟩ := List.nodup_cons.mp (posted ▸ upright.standing.nodup)
  have among : id ∈ s.engine.posted := posted ▸ List.mem_cons_self
  obtain ⟨m, -, result, took, log⟩ := upright.standing.took device among
  have silent : s'.untold requestId = [] := by
    rw [after, called.log, log, List.filter_eq_nil_iff]
    intro o told own
    exact upright.standing.silent id among o told ((of_decide_eq_true own).trans named.symm)
  have registered : id ∈ s'.engine.scheduler.requests.values := by
    rw [called.scheduler, result, took.requests]
    exact List.mem_append_right _ List.mem_cons_self
  have blank : (s'.engine.scheduler.sequence id).completion = [] := by
    rw [called.scheduler, result]
    exact (congrArg Sequence.completion (took.sequences id)).trans took.completion
  have watched : watch id requestId s'.record = .during (pieces requestId []) := watched
  exact .ongoing live absent watched (by simp [silent, blank]) (by simp [silent, registered])
    (Or.inl registered)

/-- Some pieces and what is to be told of a sequence are its completion, and its end is to be told
    once it has ended. -/
structure Owes (s : Service ω) (id : SeqId) (requestId : String) (tokens : List (List Int)) : Prop where
  whole : tokens.flatten ++ (s.untold requestId).flatMap (·.tokens) =
    (s.engine.scheduler.sequence id).completion
  ends : (s.untold requestId).filterMap (·.reason) =
    if id ∈ s.engine.scheduler.requests.values then []
    else (s.engine.scheduler.sequence id).finishReason.toList
  admitted : id ∈ s.engine.scheduler.requests.values ∨
    (s.engine.scheduler.sequence id).isFinished = true ∧
      (s.engine.scheduler.sequence id).finishReason ≠ none

theorem Owes.silent {tokens : List (List Int)} {more : List Output} {session : Session ω}
    {posted : List SeqId} {live : List String} (owes : s.Owes id requestId tokens)
    (unregistered : id ∉ s.engine.scheduler.requests.values)
    (standing : Standing config session posted live) (log : session.log = s.session.log ++ more)
    (before : s.untold requestId = s.session.log.filter (·.requestId = requestId)) :
    more.filter (·.requestId = requestId) = [] := by
  obtain ⟨-, ended⟩ := owes.admitted.resolve_left unregistered
  obtain ⟨reason, noted⟩ := Option.ne_none_iff_exists'.mp ended
  have final : reason ∈ (s.untold requestId).filterMap (·.reason) := by
    simp [owes.ends, unregistered, noted]
  obtain ⟨o, among, ended⟩ := List.mem_filterMap.mp final
  rw [before, List.mem_filter, decide_eq_true_iff] at among
  obtain ⟨told, rfl⟩ := among
  exact standing.nothing_behind log told (by simp [ended])

theorem Owes.quiet {tokens : List (List Int)} (owes : s.Owes id requestId tokens)
    (untold : s'.untold requestId = s.untold requestId)
    (same : (s'.engine.scheduler.sequence id).transcript = (s.engine.scheduler.sequence id).transcript)
    (registered : id ∈ s'.engine.scheduler.requests.values ↔
      id ∈ s.engine.scheduler.requests.values)
    (onward : s.engine.scheduler.Onward s'.engine.scheduler) : s'.Owes id requestId tokens where
  whole := by
    rw [untold, owes.whole]
    exact (congrArg Transcript.completion same).symm
  ends := by
    rw [untold, owes.ends]
    simp only [registered]
    exact congrArg (if id ∈ _ then [] else Option.toList ·) (congrArg Transcript.reason same).symm
  admitted := by
    rcases owes.admitted with member | ⟨finished, ended⟩
    · exact Or.inl (registered.mpr member)
    · have same : s'.engine.scheduler.sequence id = s.engine.scheduler.sequence id :=
        onward.ended id finished
      exact Or.inr (same ▸ ⟨finished, ended⟩)

theorem Owes.turned {tokens : List (List Int)} {turn : Turn}
    (owes : s.Owes turn.id requestId tokens)
    (even : (s.engine.scheduler.ledger.transcript turn.id).emitted =
      (s.engine.scheduler.ledger.transcript turn.id).completion.length)
    (member : turn.id ∈ s.engine.scheduler.requests.values)
    (untold : s'.untold requestId = s.untold requestId ++ [s.engine.scheduler.ledger.output turn])
    (transcript : (s'.engine.scheduler.sequence turn.id).transcript =
      (s.engine.scheduler.ledger.drafted turn).delivered)
    (registered : turn.id ∈ s'.engine.scheduler.requests.values ↔ turn.ending = none)
    (onward : s.engine.scheduler.Onward s'.engine.scheduler) :
    s'.Owes turn.id requestId tokens := by
  have completion : (s'.engine.scheduler.sequence turn.id).completion =
      (s.engine.scheduler.sequence turn.id).completion ++ turn.tokens :=
    congrArg Transcript.completion transcript
  have reason : (s'.engine.scheduler.sequence turn.id).finishReason =
      turn.ending.or (s.engine.scheduler.sequence turn.id).finishReason :=
    congrArg Transcript.reason transcript
  have fresh : (s.engine.scheduler.ledger.output turn).tokens = turn.tokens := by
    simp [Ledger.output, Ledger.drafted, Transcript.fresh, even]
  have unended : (s.untold requestId).filterMap (·.reason) = [] := owes.ends.trans (if_pos member)
  constructor
  case whole =>
    rw [untold, completion, ← owes.whole]
    simp [fresh]
  case ends =>
    rw [untold, List.filterMap_append, unended, reason]
    cases ending : turn.ending <;> simp [registered, ending, Ledger.output]
  case admitted =>
    cases ending : turn.ending with
    | none => exact Or.inl (registered.mpr ending)
    | some last =>
        have left : turn.id ∉ s'.engine.scheduler.requests.values := by simp [registered, ending]
        exact Or.inr ⟨(onward.registered turn.id member).resolve_left left, by simp [reason, ending]⟩

theorem Owes.called {c : Call} {device : Device ω} {tokens : List (List Int)}
    (owes : s.Owes id requestId tokens) (called : Called device c s s') (upright : s.Upright config)
    (upright' : s'.Upright config) (valid : device.Valid)
    (named : (s.engine.scheduler.sequence id).requestId = requestId)
    (before : s.untold requestId = s.session.log.filter (·.requestId = requestId))
    (after : s'.untold requestId = s'.session.log.filter (·.requestId = requestId)) :
    s'.Owes id requestId tokens := by
  have regular := upright.standing.regular
  have told := Session.perform_told regular valid called.proper
  have onward := (Session.perform_onward regular valid called.proper).2
  rw [← called.scheduler] at onward
  rcases told.turn regular (owes.admitted.imp_right And.left) with
    ⟨same, registered, more, log, silent⟩ |
    ⟨turns, turn, outputs, -, -, rfl, member, log, alone, transcript, registered⟩
  · rw [← called.scheduler] at same registered
    rw [← called.log] at log
    have nothing : more.filter (·.requestId = requestId) = [] := by
      by_cases member : id ∈ s.engine.scheduler.requests.values
      · exact named ▸ silent member
      · exact owes.silent member upright'.standing log before
    have untold : s'.untold requestId = s.untold requestId := by
      rw [after, log, List.filter_append, nothing, List.append_nil, before]
    exact owes.quiet untold same registered onward
  · rw [← called.scheduler] at transcript registered
    rw [← called.log] at log
    have alone : outputs.filter (·.requestId = requestId) =
        [s.engine.scheduler.ledger.output turn] := named ▸ alone
    have untold : s'.untold requestId =
        s.untold requestId ++ [s.engine.scheduler.ledger.output turn] := by
      rw [after, log, List.filter_append, alone, before]
    exact owes.turned (regular.even turn.id) member untold transcript registered onward

theorem Tells.called {c : Call} {device : Device ω} (tells : s.Tells id requestId)
    (called : Called device c s s') (upright : s.Upright config) (upright' : s'.Upright config)
    (valid : device.Valid) (named : (s.engine.scheduler.sequence id).requestId = requestId)
    (unforgotten : ∀ o rest, s.phase ≠ .forgetting o rest)
    (before : s.untold requestId = s.session.log.filter (·.requestId = requestId))
    (after : s'.untold requestId = s'.session.log.filter (·.requestId = requestId)) :
    s'.Tells id requestId := by
  have record := called.record
  have live := called.live
  cases tells with
  | posted live' waits watched =>
      rw [← live] at live'
      rw [← record] at watched
      rcases called.taking with ⟨first, rfl, posted⟩ | ⟨-, same⟩
      · rw [posted, List.mem_cons] at waits
        rcases waits with rfl | waits
        · exact .begun called upright posted named live' watched after
        · exact .posted live' waits watched
      · exact .posted live' (same ▸ waits) watched
  | @ongoing tokens live' unposted watched whole ends admitted =>
      have owes : s.Owes id requestId tokens := ⟨whole, ends, admitted⟩
      obtain ⟨whole', ends', admitted'⟩ := owes.called called upright upright' valid named before after
      exact .ongoing (live ▸ live') (mt called.posted unposted) (record ▸ watched) whole' ends' admitted'
  | ended _ phase _ _ _ => exact absurd phase (unforgotten _ _)
  | forgotten watched closed complete =>
      refine .forgotten (record ▸ watched) ?_ (complete.called called upright.standing.regular valid)
      rw [record, live]
      exact closed

theorem Tells.aside {notices : List Notice} (tells : s.Tells id requestId)
    (scheduler : s'.engine.scheduler = s.engine.scheduler)
    (commands : s'.engine.commands = s.engine.commands)
    (record : s'.record = s.record ++ notices)
    (others : ∀ notice ∈ notices, notice.requestId ≠ requestId)
    (live : requestId ∈ s'.engine.live ↔ requestId ∈ s.engine.live)
    (tokens : (s'.untold requestId).flatMap (·.tokens) = (s.untold requestId).flatMap (·.tokens))
    (reasons : (s'.untold requestId).filterMap (·.reason) = (s.untold requestId).filterMap (·.reason))
    (phase : ∀ o rest, s.phase = .forgetting o rest → o.requestId ≠ requestId) :
    s'.Tells id requestId := by
  have posted : s'.engine.posted = s.engine.posted := by rw [Engine.posted, Engine.posted, commands]
  refine tells.congr ?_ live (by rw [posted]) (by rw [scheduler]) (by rw [scheduler]) tokens reasons
    fun o rest forgets own => absurd own (phase o rest forgets)
  rw [record]
  exact watch_append_of_ne others

theorem Tells.past {notices : List Notice} {tokens : List (List Int)} {reason : FinishReason}
    (watched : told id requestId s.record =
      pieces requestId tokens ++ [.ended requestId reason, .forgotten requestId])
    (closed : (watch id requestId s.record).Current → requestId ∉ s.engine.live)
    (live : requestId ∈ s.engine.live) (record : s'.record = s.record ++ notices)
    (calls : ∀ notice ∈ notices, ¬ notice.IsAcceptance) (complete : s'.Complete id tokens reason) :
    s'.Tells id requestId := by
  have past : ¬ (watch id requestId s.record).Current := fun current => closed current live
  have same := watch_append_of_past past calls
  rw [← record] at same
  refine .forgotten ?_ (fun current => absurd (same ▸ current) past) complete
  rw [told, same]
  exact watched

theorem untold_of_settled (pending : s.engine.scheduler.pending = []) (requestId : String) :
    s.untold requestId = s.phase.untold.filter (·.requestId = requestId) := by
  rw [untold, pending, List.append_nil]

/-- Tokens are handed over. -/
theorem Tells.given {o : Output} {rest : List Output} (tells : s.Tells id requestId)
    (upright : s.Upright config) (named : (s.engine.scheduler.sequence id).requestId = requestId)
    (phase : s.phase = .giving o rest) (w : ω) :
    ({ engine := { s.engine with host := w }
       phase := .behind o rest
       record := s.record ++ if o.tokens.isEmpty then [] else [.tokens o.requestId o.tokens] } :
      Service ω).Tells id requestId := by
  let s' : Service ω :=
    { engine := { s.engine with host := w }
      phase := .behind o rest
      record := s.record ++ if o.tokens.isEmpty then [] else [.tokens o.requestId o.tokens] }
  show s'.Tells id requestId
  have pending := upright.settled (by simp [Draining, phase])
  have before : s.untold requestId = (o :: rest).filter (·.requestId = requestId) := by
    rw [untold_of_settled pending, phase]
    rfl
  have after : s'.untold requestId = (Phase.behind o rest).untold.filter (·.requestId = requestId) :=
    untold_of_settled (s := s') pending requestId
  have unforgotten : ∀ o' rest', s.phase ≠ .forgetting o' rest' := by simp [phase]
  have calls : ∀ notice ∈ (if o.tokens.isEmpty then [] else [Notice.tokens o.requestId o.tokens]),
      notice.requestId = o.requestId ∧ ¬ notice.IsAcceptance := by split <;> simp
  have reasons : (s'.untold requestId).filterMap (·.reason) =
      (s.untold requestId).filterMap (·.reason) := by rw [after, Phase.reasons_behind, before]
  by_cases own : o.requestId = requestId
  · subst own
    have told : o ∈ s.session.log := by simp [Session.log, session, phase, Phase.outputs]
    have live := upright.standing.heard o told
    cases tells with
    | posted _ waits _ => exact absurd named.symm (upright.standing.silent id waits o told)
    | @ongoing tokens _ unposted watched whole ends admitted =>
        rw [before, List.filter_cons_of_pos (by simp), List.flatMap_cons, ← List.append_assoc] at whole
        rw [← Phase.tokens_behind o, ← after] at whole
        rw [← reasons] at ends
        by_cases nothing : o.tokens.isEmpty = true
        · have record : s'.record = s.record := by simp [s', nothing]
          rw [List.isEmpty_iff.mp nothing, List.append_nil] at whole
          exact .ongoing live unposted (record ▸ watched) whole ends admitted
        · have record : s'.record = s.record ++ [.tokens o.requestId o.tokens] := by simp [s', nothing]
          have watched' : watch id o.requestId s'.record =
              .during (pieces o.requestId (tokens ++ [o.tokens])) := by
            rw [record, watch_snoc_of_during watched rfl (by simp)]
            simp [pieces]
          refine .ongoing live unposted watched' ?_ ends admitted
          rw [List.flatten_append, List.flatten_singleton]
          exact whole
    | ended _ forgets _ _ _ => exact absurd forgets (unforgotten _ _)
    | forgotten watched closed complete =>
        exact .past watched closed live rfl (fun notice among => (calls notice among).2)
          (complete.congr (fun waits => waits) (fun member => member) rfl)
  · refine tells.aside rfl rfl rfl (fun notice among => (calls notice among).1 ▸ own) Iff.rfl ?_ reasons
      fun _ _ forgets => absurd forgets (unforgotten _ _)
    rw [after, Phase.tokens_behind, before, List.filter_cons_of_neg (by simpa using own)]

/-- An end is told. -/
theorem Tells.announced {o : Output} {reason : FinishReason} {rest : List Output}
    (tells : s.Tells id requestId) (upright : s.Upright config)
    (named : (s.engine.scheduler.sequence id).requestId = requestId)
    (phase : s.phase = .announcing o reason rest) (w : ω) :
    ({ engine := { s.engine with host := w }
       phase := .forgetting o rest
       record := s.record ++ [.ended o.requestId reason] } : Service ω).Tells id requestId := by
  let s' : Service ω :=
    { engine := { s.engine with host := w }
      phase := .forgetting o rest
      record := s.record ++ [.ended o.requestId reason] }
  show s'.Tells id requestId
  have pending := upright.settled (by simp [Draining, phase])
  have before : s.untold requestId =
      ({ requestId := o.requestId, reason := some reason } :: rest : List Output).filter
        (·.requestId = requestId) := by
    rw [untold_of_settled pending, phase]
    rfl
  have after : s'.untold requestId = rest.filter (·.requestId = requestId) :=
    untold_of_settled (s := s') pending requestId
  have unforgotten : ∀ o' rest', s.phase ≠ .forgetting o' rest' := by simp [phase]
  by_cases own : o.requestId = requestId
  · subst own
    have log : s.session.log = o :: rest := by
      simp [Session.log, session, phase, Phase.outputs]
      exact pending
    have live := upright.standing.heard o (log ▸ List.mem_cons_self)
    have ended : o.reason = some reason := by simpa [Phase.Proper, phase] using upright.proper
    have alone : rest.filter (·.requestId = o.requestId) = [] :=
      upright.standing.nothing_behind (show _ = [o] ++ rest from log) List.mem_cons_self (by simp [ended])
    rw [List.filter_cons_of_pos (by simp), alone] at before
    cases tells with
    | posted _ waits _ =>
        exact absurd named.symm (upright.standing.silent id waits o (log ▸ List.mem_cons_self))
    | @ongoing tokens _ unposted watched whole ends admitted =>
        rw [before] at whole ends
        have unregistered : id ∉ s.engine.scheduler.requests.values := by
          intro member
          simp [member] at ends
        rw [if_neg unregistered] at ends
        have noted : (s.engine.scheduler.sequence id).finishReason = some reason := by
          cases noted : (s.engine.scheduler.sequence id).finishReason <;> simp_all
        refine .ended live rfl rfl (watch_snoc_of_during watched rfl (by simp)) ⟨unposted, unregistered, ?_, ?_, noted⟩
        · simpa using whole
        · exact (admitted.resolve_left unregistered).1
    | ended _ forgets _ _ _ => exact absurd forgets (unforgotten _ _)
    | forgotten watched closed complete =>
        exact .past watched closed live rfl (by simp)
          (complete.congr (fun waits => waits) (fun member => member) rfl)
  · have different : ∀ notice ∈ [Notice.ended o.requestId reason], notice.requestId ≠ requestId := by
      simpa using own
    rw [List.filter_cons_of_neg (by simpa using own)] at before
    refine tells.aside rfl rfl rfl different Iff.rfl ?_ ?_ fun _ _ forgets => absurd forgets (unforgotten _ _)
    all_goals rw [after, before]

theorem Tells.left {o : Output} {rest : List Output} (tells : s.Tells id requestId)
    (upright : s.Upright config) (named : (s.engine.scheduler.sequence id).requestId = requestId)
    (phase : s.phase = .forgetting o rest) :
    ({ engine := { s.engine with live := s.engine.live.erase o.requestId }
       phase := .toward rest
       record := s.record ++ [.forgotten o.requestId] } : Service ω).Tells id requestId := by
  let s' : Service ω :=
    { engine := { s.engine with live := s.engine.live.erase o.requestId }
      phase := .toward rest
      record := s.record ++ [.forgotten o.requestId] }
  show s'.Tells id requestId
  have pending := upright.settled (by simp [Draining, phase])
  have before : s.untold requestId = rest.filter (·.requestId = requestId) := by
    rw [untold_of_settled pending, phase]
    rfl
  have after : s'.untold requestId = rest.filter (·.requestId = requestId) := by
    rw [untold_of_settled (s := s') pending, Phase.untold_toward]
  have log : s.session.log = o :: rest := by
    simp [Session.log, session, phase, Phase.outputs]
    exact pending
  have told : o ∈ s.session.log := log ▸ List.mem_cons_self
  have ended : o.reason ≠ none := by
    have proper := upright.proper
    simp only [Phase.Proper, phase] at proper
    exact Option.isSome_iff_ne_none.mp proper
  by_cases own : o.requestId = requestId
  · subst own
    -- names in flight are distinct, so one erasure forgets the name
    have gone : o.requestId ∉ s'.engine.live := upright.standing.distinct.not_mem_erase
    cases tells with
    | posted _ waits _ => exact absurd named.symm (upright.standing.silent id waits o told)
    | @ongoing tokens _ unposted watched whole ends admitted =>
        -- its end would still have to be told, but nothing comes up after this one
        have unregistered : id ∉ s.engine.scheduler.requests.values := fun member =>
          ended (upright.standing.unended id member o told named.symm)
        have alone : rest.filter (·.requestId = o.requestId) = [] :=
          upright.standing.nothing_behind (show _ = [o] ++ rest from log) List.mem_cons_self ended
        rw [before, alone, if_neg unregistered] at ends
        have noted := (admitted.resolve_left unregistered).2
        cases reason : (s.engine.scheduler.sequence id).finishReason <;> simp_all
    | @ended tokens reason _ _ _ _ _ watched complete =>
        have watched' : watch id o.requestId s'.record = .during
            (pieces o.requestId tokens ++ [.ended o.requestId reason, .forgotten o.requestId]) := by
          rw [watch_snoc_of_during watched rfl (by simp), List.append_assoc]
          rfl
        refine .forgotten (by rw [PagedServing.told, watched']; rfl) (fun _ => gone) ?_
        exact complete.congr (fun waits => waits) (fun member => member) rfl
    | forgotten watched closed complete =>
        exact .past watched closed (upright.standing.heard o told) rfl (by simp)
          (complete.congr (fun waits => waits) (fun member => member) rfl)
  · have different : ∀ notice ∈ [Notice.forgotten o.requestId], notice.requestId ≠ requestId := by
      simpa using own
    refine tells.aside rfl rfl rfl different (List.mem_erase_of_ne (Ne.symm own)) ?_ ?_ ?_
    · rw [after, before]
    · rw [after, before]
    · intro o' rest' forgets
      rw [phase] at forgets
      cases forgets
      exact own

end Service

end PagedServing
