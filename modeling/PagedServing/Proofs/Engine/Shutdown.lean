import PagedServing.Proofs.Engine.Frame
import PagedServing.Proofs.Engine.Recovery

/-! # Shutting down while callbacks fail

A shutdown drains the engine before it releases anything. If the drain ends without a fault, then
everything is released, whatever callbacks did before. If a callback fails in the drain with an error
of an engine, then everything is released too before the error is told. Any other error ends the
shutdown: the requests stay registered, their blocks stay in use, and the device is kept. New requests
are refused from then on in every case.
-/

namespace PagedServing

open Scheduler (Session)

variable {ω : Type} {config : Config} {host : Host ω} {allowed : Host ω → Prop} {count : ω → Nat}

/-- A number that tells how often the device was given up. -/
structure Host.Counts (host : Host ω) (count : ω → Nat) : Prop where
  acts : ∀ w w', host.Acts w w' → count w' = count w
  shutdown : ∀ w, count (host.shutdown w) = count w + 1

namespace Engine

variable {e e' : Engine ω} {outputs : List Output} {fault : Fault}

/-- How the iterations that are run while there is work come to an end, however many there are. -/
inductive Drains (host : Host ω) : Engine ω → EStateM.Result Fault (Engine ω) Unit → Prop where
  | rests {e : Engine ω} (rests : e.hasWork = false) : Drains host e (.ok () e)
  | fails {e e' : Engine ω} {fault : Fault} (works : e.hasWork = true)
      (failed : step host e = .error fault e') : Drains host e (.error fault e')
  | goes {e e' : Engine ω} {result : StepResult} {outcome : EStateM.Result Fault (Engine ω) Unit}
      (works : e.hasWork = true) (ran : step host e = .ok result e') (rest : Drains host e' outcome) :
      Drains host e outcome

theorem stepWhileWork_of_fault (works : e.hasWork = true) (failed : step host e = .error fault e')
    (n : Nat) : stepWhileWork host (n + 1) e = .error fault e' := by
  simp only [stepWhileWork, bind, EStateM.bind, Action.run_get, works, failed, if_true]

theorem drains_of_run {outcome : EStateM.Result Fault (Engine ω) Unit} {n : Nat}
    (ran : stepWhileWork host n e = outcome) (patient : ∀ e', outcome ≠ .error .stalled e') :
    Drains host e outcome := by
  induction n generalizing e with
  | zero =>
      cases works : e.hasWork with
      | false => exact ran ▸ (stepWhileWork_of_rest works 0).symm ▸ .rests works
      | true => exact absurd (ran.symm.trans (stepWhileWork_stalled works)) (patient e)
  | succ n ih =>
      cases works : e.hasWork with
      | false => exact ran ▸ (stepWhileWork_of_rest works (n + 1)).symm ▸ .rests works
      | true =>
          cases once : step host e with
          | ok result e₁ =>
              exact .goes works once (ih ((stepWhileWork_of_work works once n).symm.trans ran))
          | error fault e₁ => exact ran ▸ (stepWhileWork_of_fault works once n).symm ▸ .fails works once

theorem Drains.unique {outcome outcome' : EStateM.Result Fault (Engine ω) Unit}
    (drains : Drains host e outcome) (drains' : Drains host e outcome') : outcome = outcome' := by
  induction drains with
  | rests rests => cases drains' <;> simp_all
  | fails works failed => cases drains' <;> simp_all
  | goes works ran _ ih =>
      cases drains' with
      | rests rests => simp_all
      | fails _ failed => cases ran.symm.trans failed
      | goes _ ran' rest =>
          cases ran.symm.trans ran'
          exact ih rest

theorem stalls_of_never (never : ∀ outcome, ¬ Drains host e outcome) (n : Nat) :
    ∃ e', stepWhileWork host n e = .error .stalled e' := by
  by_contra other
  simp only [not_exists] at other
  exact never _ (drains_of_run rfl other)

theorem deliver_yields (host : Host ω) (outputs : List Output) (e : Engine ω) :
    (deliver host outputs).Yields e (fun _ _ => True)
      fun fault _ => ∃ error, fault = .callbackFailed error := by
  have called : ∀ (callback : Callback ω) (e : Engine ω),
      (call callback).Yields e (fun _ _ => True) fun fault _ => ∃ error, fault = .callbackFailed error := by
    intro callback e
    cases ran : callback e.host with
    | mk result w => cases result <;> simp [Action.Yields, call, ran]
  induction outputs generalizing e with
  | nil => trivial
  | cons o rest ih =>
      have given : ∀ e, (giveTokens host o).Yields e (fun _ _ => True)
          fun fault _ => ∃ error, fault = .callbackFailed error := by
        intro e
        unfold giveTokens
        split
        · trivial
        · split
          · trivial
          · exact called _ e
      have announced : ∀ reason e, (announceEnd host o.requestId reason).Yields e (fun _ _ => True)
          fun fault _ => ∃ error, fault = .callbackFailed error := by
        intro reason e
        unfold announceEnd
        split
        · trivial
        · exact called _ e
      rw [deliver, deliverOne, Action.yields_bind, Action.yields_bind]
      refine (given e).weaken (fun _ e₁ _ => ?_) fun _ _ => id
      cases o.reason with
      | none => exact ih e₁
      | some reason =>
          rw [Action.yields_bind]
          exact (announced reason e₁).weaken (fun _ e₂ _ => ih _) fun _ _ => id

theorem Brings.faulted (brings : Brings host e outputs) (failed : step host e = .error fault e') :
    ∃ error, fault = .callbackFailed error := by
  obtain ⟨e₁, result, d, drained, run, -⟩ := brings
  rw [step_run drained run] at failed
  simp only [bind, EStateM.bind] at failed
  split at failed
  · cases failed
  · rename_i fault' _ undelivered
    cases failed
    exact (deliver_yields host _ _).of_error undelivered

end Engine

namespace Service

variable {s s' : Service ω} {ids : List SeqId} {n : Nat}

theorem Upright.silent (upright : s.Upright config) (valid : host.device.Valid) (idle : s.phase = .idle)
    (wound : s.Wound) {outputs : List Output} (brings : Engine.Brings host s.engine outputs) :
    outputs = [] := by
  obtain ⟨e, result, d, drained, run, rfl⟩ := brings
  have same : Engine.applyCommands s.engine = .ok [] s.engine := by
    simp only [Engine.applyCommands, bind, EStateM.bind, Action.run_get, wound.commands]
    rfl
  rw [same] at drained
  cases drained
  have regular := upright.standing.regular
  have told := Session.perform_told (c := .step) regular valid trivial
  obtain ⟨more, passed⟩ := told.passed regular (by simp)
  have nobody : more = [] := List.eq_nil_iff_forall_not_mem.mpr fun o among => by
    obtain ⟨id, member, -⟩ := passed.speakers o among
    have none : s.session.scheduler.requests.values = [] := wound.requests
    rw [none] at member
    cases member
  have log := passed.log
  have performed : s.session.perform host.device .step =
      { s.session with driven := d, handed := s.session.handed ++ result.outputs } := by
    simp only [Session.perform]
    rw [show Scheduler.Driven.step (some host.device) s.session.driven = _ from run]
  rw [nobody, upright.log_of_idle idle, performed, Session.log] at log
  simp only [List.append_nil, List.append_eq_nil_iff] at log
  exact log.1.2

/-- How it ends to run iterations while there is work. -/
inductive Ended (config : Config) (host : Host ω) (s : Service ω) (n : Nat) : Prop where
  /-- Nothing is left to do, -/
  | rested {m : Nat} (upright : (s.ticks host m).Upright config) (idle : (s.ticks host m).phase = .idle)
      (rests : (s.ticks host m).engine.hasWork = false)
      (ran : Engine.stepWhileWork host n s.engine = .ok () (s.ticks host m).engine)
  /-- or a callback fails, -/
  | failed {m : Nat} {error : CallbackError} (upright : (s.ticks host m).Upright config)
      (commands : (s.ticks host m).engine.commands = [])
      (ran : Engine.stepWhileWork host n s.engine = .error (.callbackFailed error) (s.ticks host m).engine)
  /-- or there is no end. -/
  | never (never : ∀ outcome, ¬ Engine.Drains host s.engine outcome)

theorem Upright.wedged (upright : s.Upright config) (valid : host.device.Valid) (idle : s.phase = .idle)
    (wound : s.Wound) (works : s.engine.hasWork = true) (outcome : EStateM.Result Fault (Engine ω) Unit) :
    ¬ Engine.Drains host s.engine outcome := by
  intro drains
  generalize same : s.engine = e at drains
  induction drains generalizing s with
  | rests rests => simp [same, rests] at works
  | @fails e e' fault _ failed =>
      obtain ⟨m, iterated⟩ := upright.iterated valid idle
      rcases iterated.outcome with ⟨⟨result, step⟩, -⟩ | ⟨-, -, given, lost, brings, some, -⟩
      · rw [same, failed] at step
        cases step
      · exact some (List.append_eq_nil_iff.mp (upright.silent valid idle wound brings)).2
  | @goes e e' result outcome _ ran _ ih =>
      obtain ⟨m, iterated⟩ := upright.iterated valid idle
      rcases iterated.outcome with ⟨⟨result, step⟩, kept⟩ | ⟨-, ⟨fault, step⟩, -⟩
      · have wound' := iterated.wound upright wound
        have works' : (s.ticks host m).engine.hasWork = true := by
          rw [← Bool.not_eq_false, wound'.hasWork, List.eq_nil_iff_forall_not_mem]
          rw [← Bool.not_eq_false, wound.hasWork, List.eq_nil_iff_forall_not_mem] at works
          simp only [← wound.stranded upright idle] at works
          simpa only [← wound'.stranded iterated.upright iterated.phase, kept] using works
        rw [same, ran] at step
        cases step
        exact ih iterated.upright iterated.phase wound' works' rfl
      · rw [same, ran] at step
        cases step

theorem Upright.ended (upright : s.Upright config) (valid : host.device.Valid) (idle : s.phase = .idle)
    (nearing : s.Nearing ids n) : Ended config host s n := by
  induction n generalizing s with
  | zero =>
      cases works : s.engine.hasWork with
      | false =>
          exact .rested (m := 0) upright idle works (Engine.stepWhileWork_of_rest works 0)
      | true => exact .never (upright.wedged valid idle (nearing.wound upright) works)
  | succ n ih =>
      cases works : s.engine.hasWork with
      | false =>
          exact .rested (m := 0) upright idle works (Engine.stepWhileWork_of_rest works (n + 1))
      | true =>
          obtain ⟨m, iterated⟩ := upright.iterated valid idle
          rcases iterated.outcome with ⟨⟨result, step⟩, -⟩ | ⟨-, ⟨fault, step⟩, given, lost, brings, -⟩
          · have goes := Engine.stepWhileWork_of_work works step n
            cases ih iterated.upright iterated.phase (iterated.nearing upright nearing) with
            | @rested k upright' idle' rests ran =>
                rw [← ticks_add] at upright' idle' rests ran
                exact .rested upright' idle' rests (goes.trans ran)
            | @failed k error upright' commands ran =>
                rw [← ticks_add] at upright' commands ran
                exact .failed upright' commands (goes.trans ran)
            | never never =>
                refine .never fun outcome drains => ?_
                cases drains with
                | rests rests => simp [works] at rests
                | fails _ failed => cases step.symm.trans failed
                | goes _ ran rest =>
                    cases step.symm.trans ran
                    exact never _ rest
          · obtain ⟨error, rfl⟩ := brings.faulted step
            exact .failed iterated.upright iterated.commands (Engine.stepWhileWork_of_fault works step n)

end Service

namespace Engine

variable {e e' : Engine ω}

/-- Everything was released and the device given up once, since the engine was `e`. -/
structure Released (count : ω → Nat) (e e' : Engine ω) : Prop where
  closed : e'.closed = true
  commands : e'.commands = []
  live : e'.live = []
  requests : e'.scheduler.requests.values = []
  /-- No block of either pool is named, and all are free. -/
  device : e'.scheduler.cache.device.Accounted [] ∧
    e'.scheduler.cache.device.freeCount = e'.scheduler.cache.device.size
  host : ∀ pool, e'.scheduler.cache.host = some pool →
    pool.Accounted [] ∧ pool.freeCount = pool.size
  once : count e'.host = count e.host + 1

/-- What becomes of an engine by whatever is done with it, in any hosts. -/
inductive Later : Engine ω → Engine ω → Prop where
  | now (e : Engine ω) : Later e e
  | requested {e e' : Engine ω} (prompt : List Int) (sampling : Sampling) (requestId : Option String)
      (later : Later e e') : Later e ((newRequest prompt sampling requestId).after e')
  | cancelled {e e' : Engine ω} (requestId : String) (later : Later e e') :
      Later e ((cancel requestId).after e')
  | stepped {e e' : Engine ω} (host : Host ω) (later : Later e e') : Later e ((step host).after e')
  | generated {e e' : Engine ω} (host : Host ω) (prompts : List (List Int)) (plan : SamplingPlan)
      (later : Later e e') : Later e ((generate host prompts plan).after e')
  | drained {e e' : Engine ω} (host : Host ω) (timeout : Option Number) (later : Later e e') :
      Later e ((drain host timeout).after e')
  | started {e e' : Engine ω} (host : Host ω) (later : Later e e') : Later e ((start host).after e')
  | stopped {e e' : Engine ω} (host : Host ω) (later : Later e e') : Later e ((stop host).after e')
  | shut {e e' : Engine ω} (host : Host ω) (cancelRunning : Bool) (timeout : Option Number)
      (later : Later e e') : Later e ((shutdown host cancelRunning timeout).after e')

/-- Requests are refused, because the engine shuts down. -/
def Refuses (e : Engine ω) : Prop :=
  ∀ prompt sampling requestId, (newRequest prompt sampling requestId).Fails e fun fault e' =>
    (prompt ≠ [] → fault = .shuttingDown) ∧ e'.live = e.live ∧ e'.commands = e.commands

theorem Later.accepting {e e' : Engine ω} (later : Later e e') (refuses : e.accepting = false) :
    e'.accepting = false := by
  let closedTo : Bool → Bool → ω → Prop := fun accepting _ _ => accepting = false
  have safe : ∀ host : Host ω, host.Spares closedTo := fun _ _ _ _ _ _ holds => holds
  induction later with
  | now => exact refuses
  | requested _ _ _ _ ih => exact (newRequest_preserves (p := closedTo) _ _ _).after ih
  | cancelled _ _ ih => exact (cancel_preserves (p := closedTo) _).after ih
  | stepped host _ ih => exact (step_preserves (safe host)).after ih
  | generated host _ _ _ ih => exact (generate_preserves (safe host) _ _).after ih
  | drained host _ _ ih => exact (drain_preserves (safe host) _).after ih
  | started host _ ih => exact (start_preserves (safe host)).after ih
  | stopped host _ ih => exact (stop_preserves (safe host)).after ih
  | shut host _ _ _ ih =>
      exact (shutdown_preserves (safe host) (fun _ _ _ _ => rfl) (fun _ _ _ holds => holds) _ _).after ih

theorem refuses_of_closed {e : Engine ω} (refuses : e.accepting = false) : e.Refuses := by
  intro prompt sampling requestId
  have size : 0 < (e.draft prompt sampling requestId).blockSize :=
    Int.ofNat_lt.mpr e.scheduler.config.blockSize_pos
  by_cases filled : prompt = []
  · obtain ⟨fault, m, failed, -⟩ :=
      Scheduler.create_fails (s := e.scheduler) (d := e.draft prompt sampling requestId) filled
    exact ⟨fault, _, newRequest_of_error failed, fun some => absurd filled some, rfl, rfl⟩
  · obtain ⟨id, m, run, -⟩ := create_returns (s := e.scheduler)
      (d := e.draft prompt sampling requestId) filled size
    refine ⟨.shuttingDown, { e with scheduler := m }, ?_, fun _ => rfl, rfl, rfl⟩
    rw [newRequest_of_ok run]
    simp only [accept, bind, EStateM.bind, Action.run_get, refuses, Action.require]
    rfl

/-- What becomes of an engine that is shut down in a host. -/
structure Shuts (host : Host ω) (count : ω → Nat) (cancelRunning : Bool) (timeout : Option Number)
    (e : Engine ω) : Prop where
  /-- If the drain ends without a fault, then the shutdown returns, and everything was released. -/
  releases : ∀ e', Drains host (e.departing cancelRunning) (.ok () e') →
    (shutdown host cancelRunning timeout).Returns e fun _ e'' => Released count e e''
  /-- If a fault ends the drain, then a callback has failed. An error of an engine is told when
      everything was released. With any other error the shutdown ends there: the engine is not closed,
      and the device is not given up. -/
  breaks : ∀ fault e', Drains host (e.departing cancelRunning) (.error fault e') →
    ∃ error, fault = .callbackFailed error ∧
      (error.ofEngine = true → (shutdown host cancelRunning timeout).Fails e fun fault' e'' =>
        fault' = fault ∧ Released count e e'') ∧
      (error.ofEngine = false → shutdown host cancelRunning timeout e = .error fault e' ∧
        e'.closed = false ∧ count e'.host = count e.host)
  /-- The shutdown comes to its end exactly if the drain does. -/
  ends : (shutdown host cancelRunning timeout).Fails e (fun fault _ => fault = .stalled) ↔
    ∀ outcome, ¬ Drains host (e.departing cancelRunning) outcome
  /-- Requests are refused ever after. -/
  refuses : ∀ e', Later ((shutdown host cancelRunning timeout).after e) e' → e'.Refuses

/-- The device is not given up by what is done with an engine before it is shut down. -/
def Kept (allowed : Host ω → Prop) (count : ω → Nat) (e : Engine ω) : Prop :=
  (∀ host, allowed host → count ((step host).after e).host = count e.host) ∧
  (∀ prompt sampling requestId,
    count ((newRequest prompt sampling requestId).after e).host = count e.host) ∧
  ∀ requestId, count ((cancel requestId).after e).host = count e.host

theorem shutdown_accepting (opened : e.closed = false) (host : Host ω) (cancelRunning : Bool)
    (timeout : Option Number) : ((shutdown host cancelRunning timeout).after e).accepting = false := by
  have same : shutdown host cancelRunning timeout e =
      shutdown host cancelRunning timeout { e with accepting := false } := by
    rw [shutdown_eq opened, shutdown_eq (by exact opened)]
    rfl
  rw [Action.after, same]
  exact (shutdown_preserves (p := fun accepting _ _ => accepting = false) (fun _ _ _ _ _ holds => holds)
    (fun _ _ _ _ => rfl) (fun _ _ _ holds => holds) cancelRunning timeout).after rfl

theorem Closed.released {e₀ : Engine ω} (closed : Closed host e e') (counts : host.Counts count)
    (before : count e.host = count e₀.host) : Released count e₀ e' := by
  have idle := (Scheduler.isIdle_iff closed.orderly).mpr closed.requests
  have unheld := closed.orderly.unheld_of_idle idle
  obtain ⟨deviceFree, hostFree⟩ := closed.orderly.conserved.idle (Or.inl idle)
  have balanced := closed.orderly.sound.balanced
  exact ⟨closed.closed, closed.commands, closed.live, closed.requests,
    ⟨balanced.device.accounted fun b => (unheld b).1.symm, deviceFree⟩,
    fun p found => ⟨(balanced.host p found).accounted fun b => (unheld b).2.symm, hostFree p found⟩,
    by rw [closed.host, counts.shutdown, before]⟩

section Outcomes

variable {cancelRunning : Bool} {timeout : Option Number}
  (refuses : ∀ e', Later ((shutdown host cancelRunning timeout).after e) e' → e'.Refuses)
include refuses

theorem shuts_of_rested (drains : Drains host (e.departing cancelRunning) (.ok () e'))
    (returns : (shutdown host cancelRunning timeout).Returns e fun _ e'' => Released count e e'') :
    Shuts host count cancelRunning timeout e := by
  refine ⟨fun _ _ => returns, fun fault e' fails => ?_, iff_of_false ?_ ?_, refuses⟩
  · cases drains.unique fails
  · rintro ⟨_, _, failed, -⟩
    obtain ⟨_, _, ran, -⟩ := returns
    cases ran.symm.trans failed
  · exact fun never => never _ drains

theorem shuts_of_failed {error : CallbackError}
    (drains : Drains host (e.departing cancelRunning) (.error (.callbackFailed error) e'))
    (tells : error.ofEngine = true → (shutdown host cancelRunning timeout).Fails e fun fault e'' =>
      fault = .callbackFailed error ∧ Released count e e'')
    (leaves : error.ofEngine = false →
      shutdown host cancelRunning timeout e = .error (.callbackFailed error) e')
    (opened : e'.closed = false) (kept : count e'.host = count e.host) :
    Shuts host count cancelRunning timeout e := by
  refine ⟨fun e' rests => ?_, fun fault e' fails => ?_, iff_of_false ?_ ?_, refuses⟩
  · cases drains.unique rests
  · cases drains.unique fails
    exact ⟨error, rfl, tells, fun other => ⟨leaves other, opened, kept⟩⟩
  · rintro ⟨_, _, failed, rfl⟩
    cases kind : error.ofEngine with
    | false => cases (leaves kind).symm.trans failed
    | true =>
        obtain ⟨_, _, ran, rfl, -⟩ := tells kind
        cases ran.symm.trans failed
  · exact fun never => never _ drains

theorem shuts_of_never (never : ∀ outcome, ¬ Drains host (e.departing cancelRunning) outcome)
    (stalls : shutdown host cancelRunning timeout e = .error .stalled e') :
    Shuts host count cancelRunning timeout e :=
  ⟨fun _ rests => absurd rests (never _), fun _ _ fails => absurd fails (never _),
    iff_of_true ⟨_, _, stalls, rfl⟩ never, refuses⟩

end Outcomes

/-- However callbacks failed before, a shutdown releases everything and gives up the device once,
    unless a callback fails in its drain. -/
theorem shutdown_releases_unless_interrupted (valid : ∀ host, allowed host → host.device.Valid)
    (counts : ∀ host, allowed host → host.Counts count) (attained : Attained config allowed e)
    (may : allowed host) (cancelRunning : Bool) (timeout : Option Number) :
    e.Kept allowed count ∧ Shuts host count cancelRunning timeout e := by
  obtain ⟨s, upright, idle, rfl, -⟩ := attained.service valid
  let same : Bool → Bool → ω → Prop := fun _ _ w => count w = count s.engine.host
  have spares : ∀ host, allowed host → host.Spares same := fun host may _ _ w w' acts kept =>
    ((counts host may).acts w w' acts).trans kept
  refine ⟨⟨fun host may => (step_preserves (spares host may)).after rfl,
    fun _ _ _ => (newRequest_preserves (p := same) _ _ _).after rfl, fun _ => rfl⟩, ?_⟩
  obtain ⟨upright', -⟩ := upright.departing cancelRunning
  have departed : count (s.engine.departing cancelRunning).host = count s.engine.host := by
    cases cancelRunning <;> rfl
  have worked := stepWhileWork_preserves (spares host may) (s.engine.departing cancelRunning).patience
    (s.engine.departing cancelRunning) departed
  have drained : drain host timeout _ = _ := drain_of_absent upright'.unfailed upright'.absent timeout
  have refuses := fun e' (later : Later _ e') => refuses_of_closed
    (later.accepting (shutdown_accepting upright.opened host cancelRunning timeout))
  cases upright'.ended (valid host may) idle upright'.nearing with
  | rested upright'' idle'' rests ran =>
      have ok : (stepWhileWork host _ >>= fun _ => pure true) _ = _ := Action.bind_of_run ran
      obtain ⟨still, rests⟩ := upright''.atRest idle'' rests
      refine shuts_of_rested refuses (drains_of_run ran (by simp)) ?_
      exact (shutdown_of_drained upright.opened upright.absent (drained.trans ok) still
        rests).weaken fun _ _ closed => closed.released (counts host may) (worked.of_ok ran)
  | @failed m error upright'' commands ran =>
      have broken : drain host timeout _ = _ := drained.trans (Action.bind_of_error ran)
      have kept := worked.of_error ran
      refine shuts_of_failed refuses (drains_of_run ran (by simp)) (fun ofEngine => ?_)
        (fun other => ?_) upright''.opened kept
      · obtain ⟨_, e'', ran, told, closed⟩ :=
          shutdown_of_engineError (.callbackFailed error) upright.opened upright.absent ofEngine
            broken ⟨upright''.standing.regular.orderly, commands, upright''.absent⟩
        exact ⟨_, e'', ran, told, closed.released (counts host may) kept⟩
      · exact shutdown_of_error (.callbackFailed error) upright.opened upright.absent other broken
  | never never =>
      obtain ⟨e', stalled⟩ := stalls_of_never never (s.engine.departing cancelRunning).patience
      exact shuts_of_never refuses never (shutdown_of_error .stalled upright.opened upright.absent rfl
        (drained.trans (Action.bind_of_error stalled)))

/-- A host whose state tells how often tokens were handed over and how often the device was given up.
    The first tokens are not taken. -/
def stumbling (ofEngine : Bool) : Host (Nat × Nat) where
  device := { execute b _ w := ({ result := .ok (b.sequences.map fun _ => { token := 7 }) }, w) }
  onTokens := some fun _ _ w =>
    (if w.1 = 0 then .error { text := "boom", ofEngine } else .ok (), (w.1 + 1, w.2))
  shutdown := fun w => (w.1, w.2 + 1)

theorem stumbling_valid (ofEngine : Bool) : (stumbling ofEngine).device.Valid := by
  intro batch sequences w samples answer sample member
  cases answer
  obtain ⟨_, _, rfl⟩ := List.mem_map.mp member
  exact fun _ => ⟨by decide, by decide⟩

theorem stumbling_counts (ofEngine : Bool) : (stumbling ofEngine).Counts (·.2) where
  acts w w' acts := by
    cases acts with
    | executes => rfl
    | hands given =>
        cases given
        rfl
    | tells given => cases given
  shutdown _ := rfl

/-- A request was made. -/
def requested : Engine (Nat × Nat) :=
  (newRequest [1] .standard (some "a")).after (launch (Scheduler.smallConfig .swap true) (0, 0))

theorem requested_attained (allowed : Host (Nat × Nat) → Prop) :
    Attained (Scheduler.smallConfig .swap true) allowed requested :=
  .requested (.launched (0, 0)) (by decide)

/-- A callback fails in an iteration before the shutdown, or in its drain with an error of an
    engine. -/
theorem shutdown_releases_unless_interrupted_stumbling :
    ((step (stumbling false)).Fails requested (fun fault e => fault = .callbackFailed { text := "boom" } ∧
      e.live = ["a"] ∧ e.scheduler.cache.device.freeCount = 10) ∧
    (shutdown (stumbling false) false none).Returns ((step (stumbling false)).after requested) fun _ e =>
      Released (·.2) ((step (stumbling false)).after requested) e ∧ e.host = (7, 1)) ∧
    (shutdown (stumbling true) false none).Fails requested fun fault e =>
      fault = .callbackFailed { text := "boom", ofEngine := true } ∧ Released (·.2) requested e := by
  refine ⟨⟨by decide +kernel, ?_⟩, ?_⟩
  · obtain ⟨-, shuts⟩ := shutdown_releases_unless_interrupted
      (fun _ same => same ▸ stumbling_valid false) (fun _ same => same ▸ stumbling_counts false)
      (.stepped (requested_attained _) rfl) (rfl : stumbling false = stumbling false) false none
    have rests : (stepWhileWork (stumbling false) 8).Returns
        (((step (stumbling false)).after requested).departing false) fun _ _ => True := by
      decide +kernel
    obtain ⟨_, e', ran, -⟩ := rests
    refine (shuts.releases e' (drains_of_run ran (by simp))).run.weaken fun _ e ⟨ran, released⟩ => ?_
    have hosts : (shutdown (stumbling false) false none).Returns
        ((step (stumbling false)).after requested) fun _ e => e.host = (7, 1) := by decide +kernel
    exact ⟨released, hosts.of_run ran⟩
  · obtain ⟨-, shuts⟩ := shutdown_releases_unless_interrupted
      (fun _ same => same ▸ stumbling_valid true) (fun _ same => same ▸ stumbling_counts true)
      (requested_attained _) (rfl : stumbling true = stumbling true) false none
    have fails : (stepWhileWork (stumbling true) 8).Fails (requested.departing false) fun fault _ =>
        fault = .callbackFailed { text := "boom", ofEngine := true } := by decide +kernel
    obtain ⟨_, e', ran, rfl⟩ := fails
    obtain ⟨error, same, tells, -⟩ := shuts.breaks _ e' (drains_of_run ran (by simp))
    cases same
    exact tells rfl

/-- A callback fails in the drain. The request stays, its blocks stay in use, and the device is not
    given up, but the engine takes no requests any more. -/
theorem unreleased_by_callback :
    Attained (Scheduler.smallConfig .swap true) (· = stumbling false) requested ∧
      (shutdown (stumbling false) false none).Fails requested fun fault e =>
        fault = .callbackFailed { text := "boom" } ∧ ¬ Released (·.2) requested e ∧ e.host = (1, 0) ∧
          e.live = ["a"] ∧ e.scheduler.requests.keys = ["a"] ∧
            e.scheduler.cache.device.freeCount = 10 ∧ e.scheduler.cache.device.size = 12 ∧
              (newRequest [1] .standard (some "b")).Fails e fun fault _ => fault = .shuttingDown := by
  have broken : (shutdown (stumbling false) false none).Fails requested fun fault e =>
      fault = .callbackFailed { text := "boom" } ∧ e.host = (1, 0) ∧ e.live = ["a"] ∧
        e.scheduler.requests.keys = ["a"] ∧ e.scheduler.cache.device.freeCount = 10 ∧
          e.scheduler.cache.device.size = 12 ∧
            (newRequest [1] .standard (some "b")).Fails e fun fault _ => fault = .shuttingDown := by
    decide +kernel
  obtain ⟨fault, e, ran, failed, hosts, live, rest⟩ := broken
  refine ⟨requested_attained _, fault, e, ran, failed, fun released => ?_, hosts, live, rest⟩
  rw [released.live] at live
  cases live

end Engine

end PagedServing
