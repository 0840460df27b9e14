import PagedServing.Proofs.Engine.Completion
import PagedServing.Proofs.Scheduler.Conservation

/-! # Recovery from callbacks that fail

An engine without a background loop is driven by its caller, and callbacks may fail in any of its
iterations. Once they do not fail any more, iterations end all requests. What stays in flight are
the names of requests whose end was lost; no iteration, drain or shutdown brings these back.
-/

namespace PagedServing

open Scheduler (Session)

variable {ω : Type} {config : Config} {host : Host ω} {allowed : Host ω → Prop}

namespace Engine

variable {e e' : Engine ω} {requestId : String}

/-- What an engine without a background loop comes to, in hosts of which callbacks may fail. -/
inductive Attained (config : Config) (allowed : Host ω → Prop) : Engine ω → Prop where
  | launched (w : ω) : Attained config allowed (launch config w)
  | requested {e : Engine ω} {prompt : List Int} {sampling : Sampling} {requestId : Option String}
      (before : Attained config allowed e) (hashes : e.scheduler.cache.Hashes prompt) :
      Attained config allowed ((newRequest prompt sampling requestId).after e)
  | cancelled {e : Engine ω} (before : Attained config allowed e) (requestId : String) :
      Attained config allowed ((cancel requestId).after e)
  | stepped {e : Engine ω} {host : Host ω} (before : Attained config allowed e)
      (may : allowed host) : Attained config allowed ((step host).after e)

/-- A name is in flight, but no sequence of that name is posted or registered. -/
def Stranded (e : Engine ω) (requestId : String) : Prop :=
  requestId ∈ e.live ∧ ∀ id ∈ e.posted ++ e.scheduler.requests.values,
    (e.scheduler.sequence id).requestId ≠ requestId

theorem create_returns {s : Scheduler} {d : Draft} (prompt : d.prompt ≠ []) (size : 0 < d.blockSize) :
    (Scheduler.create d).Returns s fun id s' => ∃ q, s.cache.Created s'.cache id q ∧
      q.requestId = d.requestId.getD (toString id) ∧ q.prompt = d.prompt ∧ q.sampling = d.sampling ∧
        s'.config = s.config := by
  simp only [Scheduler.create, Scheduler.returns_onCache]
  refine (Cache.create_returns prompt size).weaken ?_
  rintro id c ⟨q, created, -, -, -, text, -, -, -, -, name, sampling⟩
  exact ⟨q, created, name, text, sampling, trivial⟩

theorem create_known {s m : Scheduler} {d : Draft} {id : SeqId} (size : 0 < d.blockSize)
    (run : Scheduler.create d s = .ok id m) : m.cache.Knows id ∧ ¬ s.cache.Knows id := by
  by_cases prompt : d.prompt = []
  · obtain ⟨fault, _, refused, -⟩ := Scheduler.create_fails (s := s) prompt
    rw [run] at refused
    cases refused
  · obtain ⟨q, created, -⟩ := (create_returns prompt size).of_run run
    exact ⟨(created.knows_iff id).mpr (Or.inr rfl), created.unknown⟩

section NewRequest

variable {prompt : List Int} {sampling : Sampling} {name : Option String}

/-- The sequence of a new request. -/
def draft (e : Engine ω) (prompt : List Int) (sampling : Sampling) (name : Option String) : Draft :=
  { prompt, sampling, blockSize := e.scheduler.config.blockSize, requestId := name }

theorem newRequest_eq : newRequest prompt sampling name e =
    (onScheduler (Scheduler.create (e.draft prompt sampling name)) >>= accept) e :=
  rfl

theorem newRequest_of_ok {id : SeqId} {m : Scheduler}
    (run : Scheduler.create (e.draft prompt sampling name) e.scheduler = .ok id m) :
    newRequest prompt sampling name e = accept id { e with scheduler := m } := by
  simp only [newRequest_eq, bind, EStateM.bind, onScheduler, Action.within, run]

theorem newRequest_of_error {fault : Fault} {m : Scheduler}
    (run : Scheduler.create (e.draft prompt sampling name) e.scheduler = .error fault m) :
    newRequest prompt sampling name e = .error fault { e with scheduler := m } := by
  simp only [newRequest_eq, bind, EStateM.bind, onScheduler, Action.within, run]

end NewRequest

theorem accept_after_accepting (id : SeqId) (e : Engine ω) :
    ((accept id).after e).accepting = e.accepting := by
  by_cases acceptable : e.Acceptable id
  · obtain ⟨_, _, same⟩ := (accept_returns acceptable).after
    rw [same]
  · obtain ⟨_, journal, same⟩ := (accept_fails acceptable).after
    rw [same]

theorem advance_of_absent (absent : e.loop = .absent) : advance host e = .ok () e := by
  have still : ∀ n, turns host n e = .ok () e := by
    intro n
    cases n with
    | zero => rfl
    | succ n =>
        simp only [turns, bind, EStateM.bind, Action.run_get, canTurn,
          absent]
        rfl
  exact still _

theorem cancelEach_of_absent (absent : e.loop = .absent) (names : List String) :
    cancelEach host names e = .ok () { e with commands := e.commands ++ names.map .cancel } := by
  induction names generalizing e with
  | nil => simp only [cancelEach, List.map_nil, List.append_nil]; rfl
  | cons name rest ih =>
      have posted : cancel name e = .ok () { e with commands := e.commands ++ [.cancel name] } := rfl
      simp only [cancelEach, alongside, bind, EStateM.bind, posted]
      rw [advance_of_absent (by exact absent)]
      simp only [pure, EStateM.pure]
      rw [ih (by exact absent)]
      simp

/-- An engine that is about to be drained because it is shut down. -/
def leaving (e : Engine ω) (cancelRunning : Bool) : Engine ω :=
  if cancelRunning then { e with commands := e.commands ++ e.live.map .cancel } else e

/-- An engine that takes no more requests because it is shut down. -/
def retiring (e : Engine ω) (cancelRunning : Bool) : Engine ω :=
  let flag := if cancelRunning then "True" else "False"
  let message := s!"Shutting down engine with {e.live.length} request(s) in flight " ++
    s!"(cancel_running={flag})"
  let journal := e.scheduler.cache.journal.write ⟨.info, source, message⟩
  { e with
    accepting := false
    scheduler := { e.scheduler with cache := { e.scheduler.cache with journal } } }

/-- What a shutdown is about to drain. -/
def departing (e : Engine ω) (cancelRunning : Bool) : Engine ω :=
  (e.retiring cancelRunning).leaving cancelRunning

section WindDown

variable {cancelRunning : Bool} {timeout : Option Number}

theorem windDown_eq (absent : e.loop = .absent) : windDown host cancelRunning timeout e =
    windDown host false timeout (e.leaving cancelRunning) := by
  cases cancelRunning with
  | false => rfl
  | true =>
      simp only [windDown, bind, EStateM.bind, Action.run_get, cancelEach_of_absent absent, if_true]
      rfl

theorem windDown_of_ok (absent : e.loop = .absent)
    (drained : drain host timeout (e.leaving cancelRunning) = .ok true e') :
    windDown host cancelRunning timeout e = .ok none e' := by
  rw [windDown_eq absent]
  simp only [windDown, Bool.false_eq_true, if_false, drainOrCancel, bind, EStateM.bind, tryCatch,
    tryCatchThe, MonadExceptOf.tryCatch, EStateM.tryCatch, drained]
  rfl

theorem windDown_of_error {fault : Fault} (absent : e.loop = .absent)
    (failed : drain host timeout (e.leaving cancelRunning) = .error fault e') :
    windDown host cancelRunning timeout e = (do
      Action.require (isEngineError fault) fault
      report .error "Scheduling loop is dead, cancelling the requests still in flight"
      return some fault) e' := by
  rw [windDown_eq absent]
  simp only [windDown, Bool.false_eq_true, if_false, drainOrCancel, bind, EStateM.bind, tryCatch,
    tryCatchThe, MonadExceptOf.tryCatch, EStateM.tryCatch, failed]
  rfl

/-- An engine that stands still between two iterations, with nothing posted. -/
structure Still (e : Engine ω) : Prop where
  orderly : e.scheduler.Orderly [] []
  commands : e.commands = []
  absent : e.loop = .absent

theorem Still.reported (still : e.Still) (journal : Logging.Journal) :
    ({ e with scheduler := { e.scheduler with cache := { e.scheduler.cache with journal } } } :
      Engine ω).Still :=
  ⟨still.orderly.reported journal, still.commands, still.absent⟩

/-- Nothing is left for a still engine to do. -/
structure AtRest (e : Engine ω) : Prop where
  live : e.live = []
  requests : e.scheduler.requests.values = []
  pending : e.scheduler.pending = []

/-- An engine was shut down: its device is given up, and nothing is left to do. -/
structure Closed (host : Host ω) (e e' : Engine ω) : Prop extends Still e' where
  closed : e'.closed = true
  live : e'.live = []
  requests : e'.scheduler.requests.values = []
  host : e'.host = host.shutdown e.host

theorem stop_of_absent (absent : e.loop = .absent) : stop host e = .ok () e := by
  cases e
  cases absent
  rfl

theorem Still.releaseAll (still : e.Still) :
    releaseAll.Returns e fun outputs e' => e'.Still ∧ e'.scheduler.requests.values = [] ∧
      e'.live = e.live ∧ e'.host = e.host ∧ (e.AtRest → outputs = []) := by
  obtain ⟨orderly, commands, absent⟩ := still
  simp only [Engine.releaseAll, applyCommands, Action.returns_bind, Action.returns_get, commands,
    List.length_nil, applyMany, Action.returns_pure, onScheduler, Action.returns_within,
    Scheduler.takePending_returns, takeStats, Action.returns_modify, List.nil_append]
  obtain ⟨outputs, s, run, orderly', -, -, empty⟩ := Scheduler.releaseAll_returns orderly .cancelled
  refine ⟨outputs, s, run, ⟨orderly'.unmoved rfl ⟨rfl, rfl, fun _ => rfl⟩, rfl, absent⟩, empty, trivial,
    trivial, fun rests => ?_⟩
  rw [Scheduler.releaseAll_of_empty rests.requests] at run
  cases run
  simp [Scheduler.counted, rests.pending]

theorem checkReleased_returns (still : e.Still) (empty : e.scheduler.requests.values = []) :
    checkReleased e = .ok () e := by
  have idle : e.scheduler.requests.isEmpty = true := by
    simpa [OrderedMap.isEmpty, OrderedMap.values] using empty
  have free := (still.orderly.conserved.idle (Or.inr idle)).1
  have none : decide ((e.scheduler.cache.device.size : Int) -
      e.scheduler.cache.device.freeCount = 0) = true := by simp [free]
  simp only [checkReleased, bind, EStateM.bind, Action.run_get, Action.require, none]
  rfl

theorem posted_leaving (e : Engine ω) (cancelRunning : Bool) :
    (e.leaving cancelRunning).posted = e.posted := by
  cases cancelRunning
  · rfl
  · simp [leaving, posted, List.filterMap_append, List.filterMap_map]

/-- What is done once the requests were wound down. -/
def retire (host : Host ω) (failure : Option Fault) : Action (Engine ω) Unit := do
  stop host
  let outputs ← releaseAll
  thenClose host (deliverLast host failure outputs)
  checkReleased
  report .info "Engine shut down"
  if let some fault := failure then throw fault

theorem shutdown_eq (opened : e.closed = false) : shutdown host cancelRunning timeout e =
    (windDown host cancelRunning timeout >>= retire host) (e.retiring cancelRunning) := by
  simp only [shutdown, bind, EStateM.bind, Action.run_get, opened]
  rfl

theorem Still.retire (still : e.Still) (host : Host ω) (failure : Option Fault)
    (quiet : failure = none → e.AtRest) :
    ∃ e', Closed host e e' ∧
      retire host failure e = failure.elim (.ok () e') fun fault => .error fault e' := by
  obtain ⟨outputs, e₁, ran, still₁, empty, live, same, none⟩ := still.releaseAll
  have delivered : ∃ live', deliverLast host failure outputs e₁ = .ok () { e₁ with live := live' } ∧
      live' = [] := by
    cases failure with
    | none =>
        have rests := quiet rfl
        rw [none rests]
        exact ⟨e₁.live, rfl, live.trans rests.live⟩
    | some fault => exact ⟨[], rfl, rfl⟩
  obtain ⟨live', delivered, rfl⟩ := delivered
  have closed : thenClose host (deliverLast host failure outputs) e₁ =
      .ok () { e₁ with live := [], closed := true, host := host.shutdown e₁.host } := by
    simp only [thenClose, bind, EStateM.bind, tryCatch, tryCatchThe, MonadExceptOf.tryCatch,
      EStateM.tryCatch, delivered]
    rfl
  have still₂ : ({ e₁ with live := [], closed := true, host := host.shutdown e₁.host } :
      Engine ω).Still := ⟨still₁.orderly, still₁.commands, still₁.absent⟩
  have told := still₂.reported (e₁.scheduler.cache.journal.write ⟨.info, source, "Engine shut down"⟩)
  refine ⟨_, ⟨told, rfl, rfl, empty, same ▸ rfl⟩, ?_⟩
  unfold Engine.retire
  rw [Action.bind_of_run (stop_of_absent still.absent), Action.bind_of_run ran,
    Action.bind_of_run closed, Action.bind_of_run (checkReleased_returns still₂ empty)]
  cases failure <;> rfl

theorem shutdown_of_drained (opened : e.closed = false) (absent : e.loop = .absent)
    (drained : drain host timeout (e.departing cancelRunning) = .ok true e') (still : e'.Still)
    (rests : e'.AtRest) : (shutdown host cancelRunning timeout).Returns e fun _ => Closed host e' := by
  have wound := windDown_of_ok (e := e.retiring cancelRunning) absent drained
  obtain ⟨e'', closed, ran⟩ := still.retire host none fun _ => rests
  refine ⟨(), e'', ?_, closed⟩
  rw [shutdown_eq opened, Action.bind_of_run wound, ran, Option.elim_none]

theorem shutdown_of_engineError (fault : Fault) (opened : e.closed = false) (absent : e.loop = .absent)
    (ofEngine : isEngineError fault = true)
    (failed : drain host timeout (e.departing cancelRunning) = .error fault e') (still : e'.Still) :
    (shutdown host cancelRunning timeout).Fails e fun fault' e'' =>
      fault' = fault ∧ Closed host e' e'' := by
  have wound := windDown_of_error (e := e.retiring cancelRunning) absent failed
  simp only [ofEngine, Action.require, if_true] at wound
  have reported := still.reported (e'.scheduler.cache.journal.write ⟨.error, source,
    "Scheduling loop is dead, cancelling the requests still in flight"⟩)
  obtain ⟨e'', closed, ran⟩ := reported.retire host (some fault) (by simp)
  refine ⟨fault, e'', ?_, rfl, { closed with }⟩
  rw [shutdown_eq opened, Action.bind_of_run wound, ran, Option.elim_some]

theorem shutdown_of_error (fault : Fault) (opened : e.closed = false) (absent : e.loop = .absent)
    (other : isEngineError fault = false)
    (failed : drain host timeout (e.departing cancelRunning) = .error fault e') :
    shutdown host cancelRunning timeout e = .error fault e' := by
  have wound := windDown_of_error (e := e.retiring cancelRunning) absent failed
  simp only [other, Action.require] at wound
  simp only [shutdown_eq opened, bind, EStateM.bind, wound]
  rfl

end WindDown

end Engine

namespace Service

variable {s s' : Service ω}

theorem perform_submit (s : Service ω) (id : SeqId) :
    (s.perform (.submit id)).engine = (Engine.accept id).after s.engine ∧
      (s.perform (.submit id)).phase = s.phase := by
  simp only [perform, Action.after]
  cases Engine.accept id s.engine <;> exact ⟨rfl, rfl⟩

theorem Upright.stranded_iff (upright : s.Upright config) (idle : s.phase = .idle) (name : String) :
    s.Stranded name ↔ s.engine.Stranded name := by
  have log := upright.log_of_idle idle
  refine and_congr_right fun _ => ?_
  rw [Session.Claimed, log]
  simp only [List.not_mem_nil, false_and, exists_false, or_false, not_exists, not_and]
  exact Iff.rfl

/-- A client makes a new request, and nobody is stranded or saved. -/
theorem Upright.requested (upright : s.Upright config) {prompt : List Int}
    (hashes : s.engine.scheduler.cache.Hashes prompt) (sampling : Sampling) (name : Option String) :
    ∃ s' : Service ω, s'.Upright config ∧ s'.phase = s.phase ∧
      s'.engine = (Engine.newRequest prompt sampling name).after s.engine ∧
      s'.engine.accepting = s.engine.accepting ∧ ∀ name, s'.Stranded name ↔ s.Stranded name := by
  let d := s.engine.draft prompt sampling name
  have takes : s.engine.scheduler.Takes d := ⟨rfl, hashes⟩
  obtain ⟨upright', stranded⟩ := upright.constructed takes
  have same := s.perform_construct d
  cases run : Scheduler.create d s.engine.scheduler with
  | error fault m =>
      refine ⟨_, upright', ?_, ?_, ?_, stranded⟩
      · rw [same]
      · rw [same, Action.after, Action.after, run, Engine.newRequest_of_error run]
      · rw [same]
  | ok id m =>
      have engine : (s.perform (.construct d)).engine = { s.engine with scheduler := m } := by
        rw [same, Action.after, run]
      have size : 0 < d.blockSize := Int.ofNat_lt.mpr s.engine.scheduler.config.blockSize_pos
      obtain ⟨knows, unknown⟩ := Engine.create_known size run
      have new : ¬ (s.perform (.construct d)).Accepted id := by
        rintro ⟨requestId, accepted⟩
        rw [same] at accepted
        exact unknown (upright.recorded.known id requestId accepted).1
      obtain ⟨upright'', stranded'⟩ := upright'.submitted (engine ▸ knows) new
      obtain ⟨accepted, phase⟩ := (s.perform (.construct d)).perform_submit id
      refine ⟨_, upright'', ?_, ?_, ?_, fun name => (stranded' name).trans (stranded name)⟩
      · rw [phase, same]
      · rw [accepted, engine, Action.after, Action.after, Engine.newRequest_of_ok run]
      · rw [accepted, engine]
        exact Engine.accept_after_accepting id _

theorem Upright.cancelled (upright : s.Upright config) (name : String) :
    (s.perform (.cancel name)).Upright config ∧
      ∀ other, (s.perform (.cancel name)).Stranded other ↔ s.Stranded other := by
  have nobody : ∀ host : Host ω, False → host.device.Valid := fun _ none => none.elim
  obtain ⟨upright', stranded⟩ := upright.moved (m := .cancel name) nobody trivial
  exact ⟨upright', stranded fun _ none => nomatch none⟩

theorem Upright.atRest (upright : s.Upright config) (idle : s.phase = .idle)
    (rests : s.engine.hasWork = false) : s.engine.Still ∧ s.engine.AtRest := by
  have wound := upright.wound rests
  exact ⟨⟨upright.standing.regular.orderly, wound.commands, upright.absent⟩,
    wound.hasWork.mp rests, wound.requests, upright.settled (by simp [Draining, idle])⟩

section Shutdown

variable {cancelRunning : Bool} {timeout : Option Number} (upright : s.Upright config)
include upright

theorem Upright.departing (cancelRunning : Bool) :
    let departing : Service ω := { s with engine := s.engine.departing cancelRunning }
    departing.Upright config ∧ ∀ name, departing.Stranded name ↔ s.Stranded name := by
  intro departing
  have posted : departing.engine.posted = s.engine.posted :=
    Engine.posted_leaving (s.engine.retiring cancelRunning) cancelRunning
  cases cancelRunning <;> exact upright.beside rfl posted rfl rfl rfl rfl

theorem Upright.shut (calm : host.Calm) (valid : host.device.Valid) (idle : s.phase = .idle)
    (saved : ∀ name, ¬ s.Stranded name) :
    (Engine.shutdown host cancelRunning timeout).Returns s.engine fun _ e' => e'.closed = true := by
  obtain ⟨upright', stranded⟩ := upright.departing cancelRunning
  obtain ⟨n, upright'', idle'', rests, drained⟩ :=
    upright'.drained calm valid idle fun name => (stranded name).not.mpr (saved name)
  obtain ⟨still, rests⟩ := upright''.atRest idle'' rests
  exact (Engine.shutdown_of_drained upright.opened upright.absent (drained timeout) still
    rests).weaken fun _ _ shut => shut.closed

theorem Upright.unshut (calm : host.Calm) (valid : host.device.Valid) (idle : s.phase = .idle)
    {name : String} (stranded : s.Stranded name) :
    (Engine.shutdown host cancelRunning timeout).Fails s.engine fun fault _ => fault = .stalled := by
  obtain ⟨upright', same⟩ := upright.departing cancelRunning
  obtain ⟨e, stalled⟩ := upright'.undrained calm valid idle ((same name).mpr stranded) timeout
  exact ⟨_, e, Engine.shutdown_of_error _ upright.opened upright.absent rfl stalled, rfl⟩

end Shutdown

end Service

namespace Engine

variable {e e' : Engine ω}

/-- Every engine that is attained is the engine of a service with an idle loop. -/
theorem Attained.service (attained : Attained config allowed e)
    (valid : ∀ host, allowed host → host.device.Valid) :
    ∃ s : Service ω, s.Upright config ∧ s.phase = .idle ∧ s.engine = e ∧ e.accepting = true := by
  induction attained with
  | launched w => exact ⟨.opened config w, Service.opened_upright config w, rfl, rfl, rfl⟩
  | requested before hashes ih =>
      obtain ⟨s, upright, idle, rfl, accepting⟩ := ih
      obtain ⟨s', upright', phase, same, still, -⟩ := upright.requested hashes _ _
      exact ⟨s', upright', phase.trans idle, same, same ▸ still.trans accepting⟩
  | cancelled before name ih =>
      obtain ⟨s, upright, idle, rfl, accepting⟩ := ih
      exact ⟨_, (upright.cancelled name).1, idle, rfl, accepting⟩
  | @stepped e host before may ih =>
      obtain ⟨s, upright, idle, rfl, accepting⟩ := ih
      obtain ⟨n, iterated⟩ := upright.iterated (valid host may) idle
      have after : (step host).after s.engine = (s.ticks host n).engine := by
        rcases iterated.outcome with ⟨⟨result, ran⟩, -⟩ | ⟨-, ⟨fault, ran⟩, -⟩ <;>
          rw [Action.after, ran]
      refine ⟨_, iterated.upright, iterated.phase, after.symm, ?_⟩
      rw [after, upright.ticks_accepting (valid host may)]
      exact accepting

theorem newRequest_returns_iff (accepting : e.accepting = true) {prompt : List Int}
    (filled : prompt ≠ []) (short : prompt.length < e.scheduler.config.maxLength) (sampling : Sampling)
    (name : String) : ((newRequest prompt sampling (some name)).Returns e fun answer _ => answer = name) ↔
      name ∉ e.live := by
  have size : 0 < (e.draft prompt sampling (some name)).blockSize :=
    Int.ofNat_lt.mpr e.scheduler.config.blockSize_pos
  obtain ⟨id, m, run, q, created, named, text, -, config⟩ := create_returns (s := e.scheduler)
    (d := e.draft prompt sampling (some name)) filled size
  have self : m.sequence id = q := created.self
  have named : (m.sequence id).requestId = name := self ▸ named
  have text : (m.sequence id).prompt = prompt := self ▸ text
  have acceptable : ({ e with scheduler := m } : Engine ω).Acceptable id ↔ name ∉ e.live := by
    refine ⟨fun acceptable => named ▸ acceptable.free, fun free => ⟨accepting, ?_, ?_⟩⟩
    · rw [named]
      exact free
    · rw [text, config]
      exact short
  rw [← acceptable, Action.Returns, newRequest_of_ok run]
  constructor
  · rintro ⟨answer, e', ran, -⟩
    by_contra refused
    obtain ⟨fault, _, failed, -⟩ := accept_fails refused
    rw [ran] at failed
    cases failed
  · intro acceptable
    obtain ⟨answer, e', ran, answered, -⟩ := accept_returns acceptable
    exact ⟨answer, e', ran, answered.trans named⟩

/-- What becomes of an engine when its callbacks do not fail any more and nothing more is posted. -/
structure Recovers (config : Config) (host : Host ω) (e : Engine ω) : Prop where
  /-- Iterations end all requests. Whatever is in flight then is stranded, and can not be requested
      again. -/
  winds : ∀ n, e.patience ≤ n → ∃ e', steps host n e = .ok () e' ∧ e'.commands = [] ∧
    e'.scheduler.requests.values = [] ∧ (∀ name, name ∈ e'.live ↔ e.Stranded name) ∧
    (e'.hasWork = false ↔ ∀ name, ¬ e.Stranded name) ∧
    ∀ name sampling prompt, prompt ≠ [] → prompt.length < config.maxLength →
      (((newRequest prompt sampling (some name)).Returns e' fun answer _ => answer = name) ↔
        ¬ e.Stranded name)
  /-- If no name is stranded, then the engine can be drained and shut down. -/
  ends : (∀ name, ¬ e.Stranded name) → ∀ timeout,
    ((drain host timeout).Returns e fun done e' => done = true ∧ e'.hasWork = false) ∧
      ∀ cancelRunning, (shutdown host cancelRunning timeout).Returns e fun _ e' => e'.closed = true
  /-- Otherwise neither comes to its end, however many iterations are run. -/
  stalls : ∀ name, e.Stranded name →
    (∀ n, (stepWhileWork host n).Fails e fun fault _ => fault = .stalled) ∧ ∀ timeout,
      ((drain host timeout).Fails e fun fault _ => fault = .stalled) ∧
        ∀ cancelRunning,
          (shutdown host cancelRunning timeout).Fails e fun fault _ => fault = .stalled

/-- An iteration strands nobody, or a callback fails in it: then those names are stranded whose end
    was among the outputs that the callback kept from being delivered. -/
def Strands (host : Host ω) (e : Engine ω) : Prop :=
  ((step host).Returns e fun _ e' => ∀ name, e'.Stranded name ↔ e.Stranded name) ∨
    ¬ host.Calm ∧ (step host).Fails e fun _ e' => ∃ given lost, Brings host e (given ++ lost) ∧
      lost ≠ [] ∧ ∀ name, e'.Stranded name ↔
        e.Stranded name ∨ ∃ o ∈ lost, o.requestId = name ∧ o.reason ≠ none

/-- What clients do strands nobody. -/
def Harmless (e : Engine ω) : Prop :=
  (∀ prompt sampling requestId, e.scheduler.cache.Hashes prompt → ∀ name,
    ((newRequest prompt sampling requestId).after e).Stranded name ↔ e.Stranded name) ∧
  ∀ requestId name, ((cancel requestId).after e).Stranded name ↔ e.Stranded name

/-- Once callbacks do not fail any more, an engine recovers, but for stranded names. Names are
    stranded only if a callback fails before an end is told. -/
theorem recovers_unless_stranded (valid : ∀ host, allowed host → host.device.Valid)
    (attained : Attained config allowed e) :
    (∀ host : Host ω, host.Calm → host.device.Valid → Recovers config host e) ∧
      (∀ host, allowed host → Strands host e) ∧ Harmless e := by
  obtain ⟨s, upright, idle, rfl, accepting⟩ := attained.service valid
  have stranded := upright.stranded_iff idle
  refine ⟨fun host calm hosted => ⟨fun n enough => ?_, fun saved timeout => ?_, fun name lost => ?_⟩,
    fun host may => ?_, fun prompt sampling requestId hashes name => ?_, fun requestId name => ?_⟩
  · obtain ⟨m, upright', idle', same, wound, ran⟩ :=
      upright.winds calm hosted idle (upright.nearing.mono enough)
    have left : ∀ name, name ∈ (s.ticks host m).engine.live ↔ s.engine.Stranded name := fun name =>
      (wound.stranded upright' idle' name).symm.trans ((same name).trans (stranded name))
    refine ⟨_, ran, wound.commands, wound.requests, left, ?_, fun name sampling prompt filled short => ?_⟩
    · rw [wound.hasWork, List.eq_nil_iff_forall_not_mem]
      exact forall_congr' fun name => not_congr (left name)
    · have config' : (s.ticks host m).engine.scheduler.config = config :=
        upright'.standing.regular.config
      rw [newRequest_returns_iff _ filled (config' ▸ short), left]
      rw [upright.ticks_accepting hosted]
      exact accepting
  · have saved : ∀ name, ¬ s.Stranded name := fun name => (stranded name).not.mpr (saved name)
    obtain ⟨m, -, -, rests, drained⟩ := upright.drained calm hosted idle saved
    exact ⟨⟨true, _, drained timeout, rfl, rests⟩, fun _ => upright.shut calm hosted idle saved⟩
  · have lost := (stranded name).mpr lost
    refine ⟨fun n => ?_, fun timeout => ⟨?_, fun _ => upright.unshut calm hosted idle lost⟩⟩
    · obtain ⟨e', stalled⟩ := upright.stalls calm hosted idle lost n
      exact ⟨_, e', stalled, rfl⟩
    · obtain ⟨e', stalled⟩ := upright.undrained calm hosted idle lost timeout
      exact ⟨_, e', stalled, rfl⟩
  · obtain ⟨n, iterated⟩ := upright.iterated (valid host may) idle
    have after := iterated.upright.stranded_iff iterated.phase
    rcases iterated.outcome with
      ⟨⟨result, ran⟩, same⟩ | ⟨raised, ⟨fault, ran⟩, given, lost, brings, some, more⟩
    · exact Or.inl ⟨result, _, ran, fun name => (after name).symm.trans ((same name).trans (stranded name))⟩
    · refine Or.inr ⟨raised, fault, _, ran, given, lost, brings, some, fun name => ?_⟩
      rw [← after, more, stranded]
      exact Iff.rfl
  · obtain ⟨s', upright', phase, engine, -, same⟩ := upright.requested hashes sampling requestId
    rw [← engine, ← upright'.stranded_iff (phase.trans idle), same, stranded]
  · obtain ⟨upright', same⟩ := upright.cancelled requestId
    have after := upright'.stranded_iff (idle : (s.perform (.cancel requestId)).phase = .idle) name
    exact after.symm.trans ((same name).trans (stranded name))

/-- Sampling of one token. -/
def single : Sampling := { Sampling.standard with maxTokens := 1, maxTokens_pos := Nat.one_pos }

/-- A host that cannot be handed tokens. -/
def deaf : Host Unit := { Service.heeding with onTokens := some fun _ _ w => (.error { text := "deaf" }, w) }

/-- A host that cannot be told of an end. -/
def failing : Host Unit := { Service.heeding with onEnd := some fun _ _ w => (.error { text := "boom" }, w) }

/-- An iteration in a host, after a request was made. -/
def served (host : Host Unit) (sampling : Sampling) : Engine Unit :=
  (step host).after
    ((newRequest [1] sampling (some "a")).after (launch (Scheduler.smallConfig .swap true) ()))

theorem served_attained (host : Host Unit) (valid : host.device.Valid) (sampling : Sampling) :
    Attained (Scheduler.smallConfig .swap true) (·.device.Valid) (served host sampling) :=
  .stepped (.requested (.launched ()) (by decide)) valid

/-- If tokens of a request that goes on are lost, then it comes to its end all the same. -/
theorem recovers_unless_stranded_deaf :
    (step deaf).Fails
        ((newRequest [1] .standard (some "a")).after (launch (Scheduler.smallConfig .swap true) ()))
        (fun fault _ => fault = .callbackFailed { text := "deaf" }) ∧
      (∀ name, ¬ (served deaf .standard).Stranded name) ∧
      (drain Service.heeding none).Returns (served deaf .standard) fun done e =>
        done = true ∧ e.hasWork = false := by
  have attained := served_attained deaf Scheduler.sevens_valid .standard
  obtain ⟨recovers, -⟩ := recovers_unless_stranded (fun _ valid => valid) attained
  have live : (served deaf .standard).live = ["a"] := by decide +kernel
  have saved : ∀ name, ¬ (served deaf .standard).Stranded name := by
    rintro name ⟨flies, nobody⟩
    obtain rfl : name = "a" := by simpa [live] using flies
    exact nobody 0 (by decide +kernel) (by decide +kernel)
  refine ⟨by decide +kernel, saved, ?_⟩
  · exact ((recovers Service.heeding Service.heeding_attentive.toCalm Scheduler.sevens_valid).ends saved
      none).1

/-- The end of the only request is lost. No iterations bring the engine to rest then, and the name
    cannot be used again. -/
theorem wedged_by_callback :
    Attained (Scheduler.smallConfig .swap true) (·.device.Valid) (served failing single) ∧
      (served failing single).scheduler.isIdle = true ∧
      ∀ n, (steps Service.heeding n).Returns (served failing single) fun _ e => e.hasWork = true ∧
        (stepWhileWork Service.heeding n).Fails (served failing single)
          (fun fault _ => fault = .stalled) ∧
        ¬ (newRequest [1] single (some "a")).Returns e fun answer _ => answer = "a" := by
  have attained := served_attained failing Scheduler.sevens_valid single
  refine ⟨attained, by decide +kernel, fun n => ?_⟩
  have stranded : (served failing single).Stranded "a" := by
    have nobody : (served failing single).posted ++
        (served failing single).scheduler.requests.values = [] := by decide +kernel
    refine ⟨by decide +kernel, ?_⟩
    simp [nobody]
  obtain ⟨s, upright, idle, same, accepting⟩ := attained.service fun _ valid => valid
  rw [← same] at stranded accepting ⊢
  have calm := Service.heeding_attentive.toCalm
  have lost := (upright.stranded_iff idle "a").mpr stranded
  obtain ⟨m, upright', kept, ran⟩ := upright.steps calm Scheduler.sevens_valid idle n
  obtain ⟨e, stalled⟩ := upright.stalls calm Scheduler.sevens_valid idle lost n
  have flies := ((kept "a").mpr lost).1
  refine ⟨(), _, ran, ?_, ⟨_, e, stalled, rfl⟩, ?_⟩
  · cases live : (s.ticks Service.heeding m).engine.live with
    | nil =>
        rw [live] at flies
        cases flies
    | cons _ _ => simp [hasWork, live]
  · have config : (s.ticks Service.heeding m).engine.scheduler.config = Scheduler.smallConfig .swap true :=
      upright'.standing.regular.config
    rw [newRequest_returns_iff _ (by simp) (by rw [config]; decide)]
    · exact not_not.mpr flies
    · rw [upright.ticks_accepting Scheduler.sevens_valid]
      exact accepting

end Engine

end PagedServing
