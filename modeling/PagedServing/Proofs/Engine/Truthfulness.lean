import PagedServing.Proofs.Engine.Telling

/-! # Truthful services

As long as no callback fails, every service is truthful: nothing that clients or the loop do, in
whatever order, spoils what clients were told of a request.
-/

namespace PagedServing.Service

open Scheduler (Call Driven Session)

variable {ω : Type} {config : Config} {s s' : Service ω} {host : Host ω} {id : SeqId}
  {requestId : String}

theorem untold_of_outputs (same : s.phase.untold = s.phase.outputs) (requestId : String) :
    s.untold requestId = s.session.log.filter (·.requestId = requestId) := by
  rw [untold, same]
  rfl

theorem Truthful.held_append {notices : List Notice} (truthful : s.Truthful)
    (live : requestId ∈ s.engine.live) (kept : .forgotten requestId ∉ notices) :
    ∃ id, .accepted id requestId ∈ s.record ++ notices ∧
      .forgotten requestId ∉ told id requestId (s.record ++ notices) := by
  obtain ⟨id, accepted, unforgotten⟩ := truthful.held requestId live
  refine ⟨id, List.mem_append_left _ accepted, fun among => ?_⟩
  exact (mem_told_append among).elim unforgotten kept

theorem mem_of_nobody {notices : List Notice} (nobody : ∀ notice ∈ notices, ¬ notice.IsAcceptance)
    (accepted : .accepted id requestId ∈ s.record ++ notices) : .accepted id requestId ∈ s.record :=
  (List.mem_append.mp accepted).resolve_right fun among => nobody _ among trivial

theorem Truthful.called {c : Call} {device : Device ω} (truthful : s.Truthful)
    (called : Called device c s s') (upright : s.Upright config) (valid : device.Valid)
    (unforgotten : ∀ o rest, s.phase ≠ .forgetting o rest)
    (before : s.phase.untold = s.phase.outputs) (after : s'.phase.untold = s'.phase.outputs) :
    s'.Truthful where
  tells := by
    intro id requestId accepted
    rw [called.record] at accepted
    exact (truthful.tells id requestId accepted).called called upright
      (called.upright upright valid).1 valid (upright.recorded.known id requestId accepted).2 unforgotten
      (untold_of_outputs before requestId) (untold_of_outputs after requestId)
  held := by
    rw [called.record, called.live]
    exact truthful.held

theorem Ticked.truthful {lost : List Output} (ticked : Ticked host s s' lost) (truthful : s.Truthful)
    (upright : s.Upright config) (calm : host.Calm) (valid : host.device.Valid) : s'.Truthful := by
  have named : ∀ id requestId, .accepted id requestId ∈ s.record →
      (s.engine.scheduler.sequence id).requestId = requestId :=
    fun id requestId accepted => (upright.recorded.known id requestId accepted).2
  have ticked' := ticked
  cases ticked' with
  | begins phase same =>
      subst same
      refine ⟨fun id requestId accepted => (truthful.tells id requestId accepted).congr rfl Iff.rfl
        Iff.rfl Iff.rfl rfl ?_ ?_ ?_, truthful.held⟩
      · simp [untold, phase, Phase.untold]
      · simp [untold, phase, Phase.untold]
      · simp [phase]
  | adds phase _ _ _ | cancels phase _ _ _ | iterates phase _ _ _ =>
      obtain ⟨⟨c, called⟩, after⟩ := ticked.called upright phase
      exact truthful.called called upright valid (by simp [phase]) (by rw [phase]; rfl) after
  | @gives o rest w phase same =>
      subst same
      have nobody : ∀ notice ∈ (if o.tokens.isEmpty then [] else [Notice.tokens o.requestId o.tokens]),
          ¬ notice.IsAcceptance := by split <;> simp
      constructor
      · intro id requestId accepted
        have accepted := mem_of_nobody nobody accepted
        exact (truthful.tells id requestId accepted).given upright (named _ _ accepted) phase w
      · intro requestId live
        exact truthful.held_append live (by split <;> simp)
  | @announces o reason rest w phase same =>
      subst same
      constructor
      · intro id requestId accepted
        have accepted := mem_of_nobody (by simp) accepted
        exact (truthful.tells id requestId accepted).announced upright (named _ _ accepted) phase w
      · intro requestId live
        exact truthful.held_append live (by simp)
  | @forgets o rest phase same =>
      subst same
      constructor
      · intro id requestId accepted
        have accepted := mem_of_nobody (by simp) accepted
        exact (truthful.tells id requestId accepted).left upright (named _ _ accepted) phase
      · intro requestId live
        obtain ⟨other, among⟩ := upright.standing.distinct.mem_erase_iff.mp live
        exact truthful.held_append among (by simpa using other)
  | fails raised _ _ _ => exact absurd calm raised

theorem Truthful.constructed (truthful : s.Truthful) (upright : s.Upright config) {d : Draft}
    (takes : s.engine.scheduler.Takes d) : (s.perform (.construct d)).Truthful := by
  have constructed := (Scheduler.create_orderly upright.standing.regular.orderly takes).2.2
  have pending : ((Scheduler.create d).after s.engine.scheduler).pending =
      s.engine.scheduler.pending := constructed.pending
  have requests : ((Scheduler.create d).after s.engine.scheduler).requests =
      s.engine.scheduler.requests := constructed.unmoved.requests
  rw [perform_construct]
  refine ⟨fun id requestId accepted => ?_, truthful.held⟩
  have knows := (upright.recorded.known id requestId accepted).1
  refine (truthful.tells id requestId accepted).congr rfl Iff.rfl Iff.rfl ?_
    (constructed.others id knows) ?_ ?_ fun _ _ _ _ => rfl
  · rw [requests]
  · rw [untold, untold, pending]
  · rw [untold, untold, pending]

/-- A sequence is accepted under a name that was free. -/
theorem Truthful.accepted (truthful : s.Truthful) (acceptable : s.engine.Acceptable id)
    (new : ¬ s.Accepted id) :
    ({ s with
      engine := { s.engine with
        live := s.engine.live ++ [(s.engine.scheduler.sequence id).requestId]
        commands := s.engine.commands ++ [.add id] }
      record := s.record ++ [.accepted id (s.engine.scheduler.sequence id).requestId] } :
        Service ω).Truthful := by
  let name := (s.engine.scheduler.sequence id).requestId
  let s' : Service ω := { s with
    engine := { s.engine with live := s.engine.live ++ [name], commands := s.engine.commands ++ [.add id] }
    record := s.record ++ [.accepted id name] }
  show s'.Truthful
  have posted : s'.engine.posted = s.engine.posted ++ [id] := by simp [s', Engine.posted]
  have begun : watch id name s'.record = .during [] := by
    rw [watch_snoc, watch_of_new fun among => new ⟨name, among⟩]
    simp [Watch.next]
  have free : name ∉ s.engine.live := acceptable.free
  constructor
  · intro other requestId accepted
    rcases List.mem_append.mp accepted with old | same
    -- whoever was accepted before under another name is told the same as before
    · have different : other ≠ id := fun same => new ⟨requestId, same ▸ old⟩
      have stays : other ∈ s'.engine.posted ↔ other ∈ s.engine.posted := by
        rw [posted, List.mem_append, List.mem_singleton, or_iff_left different]
      by_cases own : name = requestId
      · -- the name was used before, by a request that is over
        subst own
        have tells := truthful.tells other name old
        cases tells with
        | posted live _ _ | ongoing live _ _ _ _ _ | ended live _ _ _ _ => exact absurd live free
        | forgotten watched closed complete =>
            have next : told other name s'.record = told other name s.record ∧
                ¬ (watch other name s'.record).Current := by
              rw [told, told, watch_snoc]
              cases last : watch other name s.record <;>
                simp_all [told, Watch.next, Watch.notices, Watch.Current]
            refine .forgotten (next.1.trans watched) (fun current => absurd current next.2) ?_
            exact complete.congr stays.mp (fun member => member) rfl
      · have live : requestId ∈ s'.engine.live ↔ requestId ∈ s.engine.live := by
          show requestId ∈ s.engine.live ++ [name] ↔ _
          rw [List.mem_append, List.mem_singleton, or_iff_left (Ne.symm own)]
        refine (truthful.tells other requestId old).congr ?_ live stays Iff.rfl rfl rfl rfl
          fun _ _ _ _ => rfl
        exact watch_append_of_ne (by simpa using own)
    · cases List.mem_singleton.mp same
      exact .posted (List.mem_append_right _ List.mem_cons_self)
        (posted ▸ List.mem_append_right _ List.mem_cons_self) begun
  · intro requestId live
    rcases List.mem_append.mp live with old | same
    · exact truthful.held_append old (by simp)
    · obtain rfl := List.mem_singleton.mp same
      refine ⟨id, List.mem_append_right _ List.mem_cons_self, ?_⟩
      rw [told, begun]
      exact List.not_mem_nil

theorem Truthful.moved {allowed : Host ω → Prop} {m : Move ω} (truthful : s.Truthful)
    (upright : s.Upright config) (valid : ∀ host, allowed host → host.device.Valid)
    (calm : ∀ host, allowed host → host.Calm) (proper : s.Proper allowed m) :
    (s.perform m).Truthful := by
  cases m with
  | construct d => exact truthful.constructed upright proper
  | submit id =>
      obtain ⟨-, new⟩ := proper
      have new : ¬ s.Accepted id := fun ⟨requestId, accepted⟩ => new requestId accepted
      by_cases acceptable : s.engine.Acceptable id
      · obtain ⟨requestId, e, run, rfl, rfl⟩ := Engine.accept_returns acceptable
        simp only [perform, run]
        exact truthful.accepted acceptable new
      · obtain ⟨fault, e, run, journal, rfl⟩ := Engine.accept_fails acceptable
        simp only [perform, run]
        refine ⟨fun other requestId accepted => ?_, truthful.held⟩
        exact (truthful.tells other requestId accepted).congr rfl Iff.rfl Iff.rfl Iff.rfl rfl rfl rfl
          fun _ _ _ _ => rfl
  | cancel requestId =>
      refine ⟨fun other name accepted => ?_, truthful.held⟩
      have posted : ({ s.engine with commands := s.engine.commands ++ [.cancel requestId] } :
          Engine ω).posted = s.engine.posted := by simp [Engine.posted]
      refine (truthful.tells other name accepted).congr rfl Iff.rfl ?_ Iff.rfl rfl rfl rfl
        fun _ _ _ _ => rfl
      exact Iff.of_eq (congrArg (other ∈ ·) posted)
  | tick host =>
      obtain ⟨lost, ticked⟩ := upright.ticks (valid host proper)
      exact ticked.truthful truthful upright (calm host proper) (valid host proper)

theorem Reached.truthful {allowed : Host ω → Prop} (reached : Reached config allowed s)
    (valid : ∀ host, allowed host → host.device.Valid) (calm : ∀ host, allowed host → host.Calm) :
    s.Truthful := by
  induction reached with
  | opened w =>
      exact ⟨fun _ _ none => absurd none List.not_mem_nil, fun _ none => absurd none List.not_mem_nil⟩
  | moved before proper ih => exact ih.moved (before.upright valid) valid calm proper

end PagedServing.Service
