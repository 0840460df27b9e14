import PagedServing.Proofs.Engine.Intake
import PagedServing.Proofs.Engine.Service
import PagedServing.Proofs.Engine.Standing

/-! # Serving

In every state that a service comes to, each request that was accepted stands where it should,
whatever the callbacks do. The scheduler refuses nothing that the loop takes over. A callback that
fails ends an iteration, and what the loop has in hand is lost.
-/

namespace PagedServing

open Scheduler (Call Driven Session)
open Scheduler.Session (Claimed Standing)

variable {ω : Type}

/-- The callbacks of a host never fail. -/
structure Host.Calm (host : Host ω) : Prop where
  onTokens : ∀ callback, host.onTokens = some callback →
    ∀ requestId tokens w, (callback requestId tokens w).1 = .ok ()
  onEnd : ∀ callback, host.onEnd = some callback →
    ∀ requestId reason w, (callback requestId reason w).1 = .ok ()

namespace Engine

variable {e : Engine ω} {host : Host ω}

theorem call_cases (callback : Callback ω) (e : Engine ω) :
    (∃ w, call callback e = .ok () { e with host := w }) ∨
      (callback e.host).1 ≠ .ok () ∧ ∃ fault w, call callback e = .error fault { e with host := w } := by
  unfold call
  split
  · exact Or.inl ⟨_, rfl⟩
  · rename_i failed
    exact Or.inr ⟨by simp [failed], _, _, rfl⟩

theorem giveTokens_cases (host : Host ω) (o : Output) (e : Engine ω) :
    (∃ w, giveTokens host o e = .ok () { e with host := w }) ∨
      ¬ host.Calm ∧ ∃ fault w, giveTokens host o e = .error fault { e with host := w } := by
  unfold giveTokens
  cases given : host.onTokens with
  | none => exact Or.inl ⟨e.host, rfl⟩
  | some callback =>
    by_cases nothing : o.tokens.isEmpty = true
    · simp only [if_pos nothing]
      exact Or.inl ⟨e.host, rfl⟩
    · simp only [if_neg nothing]
      rcases call_cases (callback o.requestId o.tokens) e with calm | ⟨failed, fails⟩
      · exact Or.inl calm
      · exact Or.inr ⟨fun calm => failed (calm.onTokens callback given _ _ _), fails⟩

theorem announceEnd_cases (host : Host ω) (requestId : String) (reason : FinishReason)
    (e : Engine ω) : (∃ w, announceEnd host requestId reason e = .ok () { e with host := w }) ∨
      ¬ host.Calm ∧ ∃ fault w,
        announceEnd host requestId reason e = .error fault { e with host := w } := by
  unfold announceEnd
  cases given : host.onEnd with
  | none => exact Or.inl ⟨e.host, rfl⟩
  | some callback =>
    rcases call_cases (callback requestId reason) e with calm | ⟨failed, fails⟩
    · exact Or.inl calm
    · exact Or.inr ⟨fun calm => failed (calm.onEnd callback given _ _ _), fails⟩

end Engine

namespace Service

variable {config : Config} {s s' : Service ω} {host : Host ω}

/-- The scheduler of a service, and the outputs that its loop has in hand. -/
def session (s : Service ω) : Session ω where
  driven := ⟨s.engine.scheduler, s.engine.host⟩
  handed := s.phase.outputs

/-- The loop drains the posted commands. -/
def Draining (s : Service ω) : Prop :=
  ∃ refused, s.phase = .draining refused

/-- A sequence was accepted. -/
def Accepted (s : Service ω) (id : SeqId) : Prop :=
  ∃ requestId, .accepted id requestId ∈ s.record

/-- How the record fits to the sequences. -/
structure Recorded (s : Service ω) : Prop where
  /-- Those that were accepted are known by the names they were accepted under, -/
  known : ∀ id requestId, .accepted id requestId ∈ s.record →
    s.engine.scheduler.cache.Knows id ∧ (s.engine.scheduler.sequence id).requestId = requestId
  /-- among them whatever is posted or registered, -/
  enlisted : ∀ id ∈ s.session.enlisted s.engine.posted, s.Accepted id
  /-- and the others wait outside. -/
  fresh : ∀ id, s.engine.scheduler.cache.Knows id → ¬ s.Accepted id → s.engine.scheduler.Fresh id

/-- What holds in every state of a service. -/
structure Upright (config : Config) (s : Service ω) : Prop where
  standing : Standing config s.session s.engine.posted s.engine.live
  recorded : s.Recorded
  opened : s.engine.closed = false
  absent : s.engine.loop = .absent
  unfailed : s.engine.loopFailed = false
  proper : s.phase.Proper
  /-- Outputs are pending only while commands are taken over. -/
  settled : ¬ s.Draining → s.engine.scheduler.pending = []

/-- A name is in flight, but of no sequence that is posted or registered, and of no end that is to
    be delivered. -/
def Stranded (s : Service ω) (name : String) : Prop :=
  name ∈ s.engine.live ∧ ¬ Claimed s.session s.engine.posted name

/-- What an action of the loop does, and the outputs that are lost in it. -/
inductive Ticked (host : Host ω) (s s' : Service ω) : List Output → Prop where
  | begins (phase : s.phase = .idle) (same : s' = { s with phase := .draining [] }) :
      Ticked host s s' []
  | adds {id : SeqId} {rest : List Command} {m : Scheduler} (phase : s.phase = .draining [])
      (commands : s.engine.commands = .add id :: rest)
      (run : Scheduler.add id s.engine.scheduler = .ok () m)
      (same : s' = { s with engine := { s.engine with commands := rest, scheduler := m } }) :
      Ticked host s s' []
  | cancels {requestId : String} {rest : List Command} {output : Option Output} {m : Scheduler}
      (phase : s.phase = .draining []) (commands : s.engine.commands = .cancel requestId :: rest)
      (run : Scheduler.abort requestId s.engine.scheduler = .ok output m)
      (same : s' = { s with engine := { s.engine with commands := rest, scheduler := m } }) :
      Ticked host s s' []
  | iterates {result : StepResult} {d : Driven ω} (phase : s.phase = .draining [])
      (commands : s.engine.commands = [])
      (run : Driven.step (some host.device) ⟨s.engine.scheduler, s.engine.host⟩ = .ok result d)
      (same : s' = { s with
        engine := { s.engine with
          scheduler := d.scheduler, host := d.device, stats := d.scheduler.stats }
        phase := .toward result.outputs }) : Ticked host s s' []
  | gives {o : Output} {rest : List Output} {w : ω} (phase : s.phase = .giving o rest)
      (same : s' = {
        engine := { s.engine with host := w }
        phase := .behind o rest
        record := s.record ++ if o.tokens.isEmpty then [] else [.tokens o.requestId o.tokens] }) :
      Ticked host s s' []
  | announces {o : Output} {reason : FinishReason} {rest : List Output} {w : ω}
      (phase : s.phase = .announcing o reason rest)
      (same : s' = {
        engine := { s.engine with host := w }
        phase := .forgetting o rest
        record := s.record ++ [.ended o.requestId reason] }) : Ticked host s s' []
  | forgets {o : Output} {rest : List Output} (phase : s.phase = .forgetting o rest)
      (same : s' = {
        engine := { s.engine with live := s.engine.live.erase o.requestId }
        phase := .toward rest
        record := s.record ++ [.forgotten o.requestId] }) : Ticked host s s' []
  /-- A callback failed. -/
  | fails {w : ω} {notices : List Notice} (raised : ¬ host.Calm) (calling : ¬ s.Draining)
      (told : ∀ notice ∈ notices, ¬ notice.IsAcceptance)
      (same : s' = {
        engine := { s.engine with host := w }
        phase := .idle
        record := s.record ++ notices }) : Ticked host s s' s.phase.outputs

theorem posted_add {e : Engine ω} {id : SeqId} {rest : List Command}
    (commands : e.commands = .add id :: rest) :
    e.posted = id :: ({ e with commands := rest } : Engine ω).posted := by
  simp [Engine.posted, commands]

theorem posted_cancel {e : Engine ω} {requestId : String} {rest : List Command}
    (commands : e.commands = .cancel requestId :: rest) :
    e.posted = ({ e with commands := rest } : Engine ω).posted := by
  simp [Engine.posted, commands]

section Act

variable {α : Type} {action : Action (Engine ω) α} {next : α → Phase} {notices : List Notice}
  {e : Engine ω} {rest : List Command}

theorem act_ok {a : α} (ran : action s.engine = .ok a e) :
    s.act action next notices = { engine := e, phase := next a, record := s.record ++ notices } := by
  simp only [act, ran]

theorem act_error {fault : Fault} (ran : action s.engine = .error fault e) :
    s.act action next notices = { engine := e, phase := .idle, record := s.record ++ notices } := by
  simp only [act, ran]

theorem applyNext_eq {c : Command} (commands : e.commands = c :: rest) :
    Engine.applyNext e = Engine.apply c { e with commands := rest } := by
  simp [Engine.applyNext, bind, EStateM.bind, Action.run_get, commands, Action.run_modify]

theorem applyNext_add {id : SeqId} {m : Scheduler} (commands : e.commands = .add id :: rest)
    (run : Scheduler.add id e.scheduler = .ok () m) :
    Engine.applyNext e = .ok [] { e with commands := rest, scheduler := m } := by
  rw [applyNext_eq commands]
  simp [Engine.apply, Engine.onScheduler, Action.within, bind, EStateM.bind, tryCatch, tryCatchThe,
    MonadExceptOf.tryCatch, EStateM.tryCatch, Action.run_get, run]
  rfl

theorem applyNext_cancel {requestId : String} {output : Option Output} {m : Scheduler}
    (commands : e.commands = .cancel requestId :: rest)
    (run : Scheduler.abort requestId e.scheduler = .ok output m) :
    Engine.applyNext e = .ok [] { e with commands := rest, scheduler := m } := by
  rw [applyNext_eq commands]
  simp [Engine.apply, Engine.onScheduler, Action.within, bind, EStateM.bind, run]
  rfl

theorem iterate_ok {result : StepResult} {d : Driven ω}
    (run : Driven.step (some host.device) ⟨e.scheduler, e.host⟩ = .ok result d) :
    iterate host e = .ok result.outputs
      { e with scheduler := d.scheduler, host := d.device, stats := d.scheduler.stats } := by
  simp only [iterate, Engine.onDriven, Engine.takeStats, bind, EStateM.bind, Action.within, run]
  rfl

end Act

/-- Whatever the loop is about to do, it does, unless a callback fails. -/
theorem Upright.ticks (upright : s.Upright config) (valid : host.device.Valid) :
    ∃ lost, Ticked host s (s.tick host) lost := by
  have orderly := upright.standing.regular.orderly
  unfold tick
  split
  · rename_i phase
    exact ⟨_, .begins phase rfl⟩
  · rename_i refused phase
    have none : refused = [] := by simpa [Phase.Proper, phase] using upright.proper
    subst none
    split
    · rename_i empty
      have commands : s.engine.commands = [] := List.isEmpty_iff.mp empty
      obtain ⟨result, d, run, -⟩ :=
        Driven.step_returns (d := ⟨s.engine.scheduler, s.engine.host⟩) orderly valid
      refine ⟨_, .iterates phase commands run ?_⟩
      rw [act_ok (iterate_ok run), List.append_nil s.record]
      rfl
    · rename_i some
      cases commands : s.engine.commands with
      | nil => simp [commands] at some
      | cons c rest =>
          cases c with
          | add id =>
              have among : id ∈ s.engine.posted := by
                rw [posted_add commands]
                exact List.mem_cons_self
              obtain ⟨m, run, -⟩ := upright.standing.took host.device among
              refine ⟨_, .adds phase commands run ?_⟩
              rw [act_ok (applyNext_add commands run), List.append_nil s.record, phase]
              rfl
          | cancel requestId =>
              obtain ⟨output, m, run, -⟩ := Scheduler.abort_returns orderly requestId
              refine ⟨_, .cancels phase commands run ?_⟩
              rw [act_ok (applyNext_cancel commands run), List.append_nil s.record, phase]
              rfl
  · rename_i o rest phase
    rcases Engine.giveTokens_cases host o s.engine with ⟨w, ran⟩ | ⟨raised, fault, w, ran⟩
    · exact ⟨_, .gives phase (act_ok ran)⟩
    · refine ⟨_, .fails raised (by simp [Draining, phase]) ?_ (act_error ran)⟩
      split <;> simp
  · rename_i o reason rest phase
    rcases Engine.announceEnd_cases host o.requestId reason s.engine with
      ⟨w, ran⟩ | ⟨raised, fault, w, ran⟩
    · exact ⟨_, .announces phase (act_ok ran)⟩
    · exact ⟨_, .fails raised (by simp [Draining, phase]) (by simp) (act_error ran)⟩
  · rename_i o rest phase
    exact ⟨_, .forgets phase rfl⟩

theorem Ticked.lossless {lost : List Output} (ticked : Ticked host s s' lost) (calm : host.Calm) :
    lost = [] := by
  cases ticked with
  | fails raised _ _ _ => exact absurd calm raised
  | begins | adds | cancels | iterates | gives | announces | forgets => rfl

theorem Recorded.called {c : Call} {device : Device ω} (recorded : s.Recorded)
    (regular : s.session.Regular config) (valid : device.Valid) (proper : c.Proper s.engine.scheduler)
    (scheduler : s'.engine.scheduler = (s.session.perform device c).scheduler)
    (record : s'.record = s.record) (taken : ∀ id, c = .add id → s.Accepted id)
    (enlisted : ∀ id ∈ s'.session.enlisted s'.engine.posted,
      id ∈ s.session.enlisted s.engine.posted) : s'.Recorded := by
  have told := Session.perform_told regular valid proper
  constructor
  case known =>
    intro id requestId accepted
    obtain ⟨knows, name⟩ := recorded.known id requestId (record ▸ accepted)
    obtain ⟨knows', origin⟩ := told.origin knows
    rw [scheduler]
    exact ⟨knows', (congrArg Origin.requestId origin).trans name⟩
  case enlisted =>
    intro id among
    rw [Accepted, record]
    exact recorded.enlisted id (enlisted id among)
  case fresh =>
    intro id knows' outside
    rw [Accepted, record] at outside
    rw [scheduler] at knows' ⊢
    by_cases knows : s.engine.scheduler.cache.Knows id
    · exact (Session.perform_fresh regular valid proper (recorded.fresh id knows outside)
        fun same => outside (taken id same)).1
    · exact told.newcomer regular.orderly knows' knows

theorem Recorded.told {notices : List Notice} (recorded : s.Recorded)
    (scheduler : s'.engine.scheduler = s.engine.scheduler)
    (commands : s'.engine.commands = s.engine.commands) (record : s'.record = s.record ++ notices)
    (nobody : ∀ notice ∈ notices, ¬ notice.IsAcceptance) : s'.Recorded := by
  have same : ∀ id requestId, .accepted id requestId ∈ s'.record ↔ .accepted id requestId ∈ s.record := by
    intro id requestId
    rw [record, List.mem_append, or_iff_left]
    exact fun among => nobody _ among trivial
  have accepted : ∀ id, s'.Accepted id ↔ s.Accepted id := fun id => exists_congr (same id)
  have posted : s'.engine.posted = s.engine.posted := by rw [Engine.posted, Engine.posted, commands]
  have enlisted : s'.session.enlisted s'.engine.posted = s.session.enlisted s.engine.posted := by
    rw [posted]
    exact congrArg (s.engine.posted ++ ·.requests.values) scheduler
  constructor
  case known =>
    intro id requestId among
    rw [scheduler]
    exact recorded.known id requestId ((same id requestId).mp among)
  case enlisted =>
    intro id among
    exact (accepted id).mpr (recorded.enlisted id (enlisted ▸ among))
  case fresh =>
    intro id knows outside
    rw [scheduler] at knows ⊢
    exact recorded.fresh id knows (mt (accepted id).mpr outside)

theorem Upright.turnedTo (upright : s.Upright config) (w : ω) {phase : Phase} {notices : List Notice}
    (nobody : ∀ notice ∈ notices, ¬ notice.IsAcceptance)
    (pending : s.engine.scheduler.pending = []) (proper : phase.Proper)
    (outputs : phase.outputs.Sublist s.phase.outputs) :
    ({ engine := { s.engine with host := w }, phase, record := s.record ++ notices } :
      Service ω).Upright config :=
  { upright with
    standing := upright.standing.skipped rfl (outputs.append_right _)
    recorded := upright.recorded.told rfl rfl rfl nobody
    proper
    settled := fun _ => pending }

/-- Some outputs tell of the end of the request of a name. -/
def Ends (os : List Output) (name : String) : Prop :=
  ∃ o ∈ os, o.requestId = name ∧ o.reason ≠ none

theorem not_ends_nil (name : String) : ¬ Ends [] name := by simp [Ends]

/-- Whose end is lost is stranded. -/
theorem Upright.abandoned (upright : s.Upright config) (w : ω) {notices : List Notice}
    (calling : ¬ s.Draining) (name : String) :
    ({ engine := { s.engine with host := w }, phase := .idle, record := s.record ++ notices } :
      Service ω).Stranded name ↔ s.Stranded name ∨ Ends s.phase.outputs name := by
  let s' : Service ω :=
    { engine := { s.engine with host := w }, phase := .idle, record := s.record ++ notices }
  have standing := upright.standing
  have pending := upright.settled calling
  have log : s.session.log = s.phase.outputs := by
    rw [Session.log]
    exact (congrArg (s.phase.outputs ++ ·) pending).trans (List.append_nil _)
  have log' : s'.session.log = [] := by
    rw [Session.log]
    exact congrArg ([] ++ ·) pending
  have apart : Ends s.phase.outputs name → name ∈ s.engine.live ∧
      ¬ ∃ id ∈ s.session.enlisted s.engine.posted, s.session.scheduler.ledger.name id = name := by
    rintro ⟨o, among, rfl, ended⟩
    rw [← log] at among
    refine ⟨standing.heard o among, ?_⟩
    rintro ⟨id, enlisted, own⟩
    rcases List.mem_append.mp enlisted with waits | member
    · exact standing.silent id waits o among own.symm
    · exact ended (standing.unended id member o among own.symm)
  have claimed : Claimed s.session s.engine.posted name ↔
      (∃ id ∈ s.session.enlisted s.engine.posted, s.session.scheduler.ledger.name id = name) ∨
        Ends s.phase.outputs name := by
    rw [Claimed, log]
    exact Iff.rfl
  have claimed' : Claimed s'.session s'.engine.posted name ↔
      ∃ id ∈ s.session.enlisted s.engine.posted, s.session.scheduler.ledger.name id = name := by
    rw [Claimed, log']
    exact or_iff_left (not_ends_nil name)
  show s'.Stranded name ↔ _
  rw [Stranded, Stranded, claimed, claimed']
  by_cases ends : Ends s.phase.outputs name
  · exact iff_of_true (apart ends) (Or.inr ends)
  · simp only [ends, or_false]
    exact Iff.rfl

theorem stranded_congr (scheduler : s'.engine.scheduler = s.engine.scheduler)
    (commands : s'.engine.commands = s.engine.commands) (live : s'.engine.live = s.engine.live)
    (ends : ∀ o, o.reason ≠ none → (o ∈ s'.phase.outputs ↔ o ∈ s.phase.outputs)) (name : String) :
    s'.Stranded name ↔ s.Stranded name := by
  have posted : s'.engine.posted = s.engine.posted := by rw [Engine.posted, Engine.posted, commands]
  have enlisted : s'.session.enlisted s'.engine.posted = s.session.enlisted s.engine.posted := by
    rw [posted]
    exact congrArg (s.engine.posted ++ ·.requests.values) scheduler
  have called : ∀ id, s'.session.scheduler.ledger.name id = s.session.scheduler.ledger.name id :=
    fun id => congrArg (·.ledger.name id) scheduler
  have log : ∀ o, o ∈ s'.session.log ∧ o.requestId = name ∧ o.reason ≠ none ↔
      o ∈ s.session.log ∧ o.requestId = name ∧ o.reason ≠ none := by
    intro o
    refine and_congr_left fun ⟨_, ended⟩ => ?_
    have outputs : o ∈ s'.session.handed ↔ o ∈ s.session.handed := ends o ended
    have pending : s'.session.scheduler.pending = s.session.scheduler.pending :=
      congrArg Scheduler.pending scheduler
    rw [Session.log, Session.log, List.mem_append, List.mem_append, outputs, pending]
  rw [Stranded, Stranded, live, Claimed, Claimed, enlisted]
  simp only [called, log]

theorem Upright.turnedOn (upright : s.Upright config) (w : ω) {phase : Phase} {notices : List Notice}
    (nobody : ∀ notice ∈ notices, ¬ notice.IsAcceptance) (calling : ¬ s.Draining)
    (proper : phase.Proper) (outputs : phase.outputs.Sublist s.phase.outputs)
    (ends : ∀ o, o.reason ≠ none → (o ∈ phase.outputs ↔ o ∈ s.phase.outputs)) :
    let s' : Service ω := { engine := { s.engine with host := w }, phase, record := s.record ++ notices }
    s'.Upright config ∧ ∀ name, s'.Stranded name ↔ s.Stranded name :=
  ⟨upright.turnedTo w nobody (upright.settled calling) proper outputs, stranded_congr rfl rfl rfl ends⟩

theorem Upright.forgotten {o : Output} {rest : List Output} (upright : s.Upright config)
    (phase : s.phase = .forgetting o rest) :
    let s' : Service ω := {
      engine := { s.engine with live := s.engine.live.erase o.requestId }
      phase := .toward rest
      record := s.record ++ [.forgotten o.requestId] }
    s'.Upright config ∧ ∀ name, s'.Stranded name ↔ s.Stranded name := by
  intro s'
  have standing := upright.standing
  have pending := upright.settled (by simp [Draining, phase])
  have ended : o.reason ≠ none := by
    have proper := upright.proper
    simp only [Phase.Proper, phase] at proper
    exact Option.isSome_iff_ne_none.mp proper
  have log : s.session.log = o :: s'.session.log := by
    rw [Session.log, Session.log, session, session, phase, Phase.outputs_toward]
    rfl
  obtain ⟨standing', claimed⟩ :=
    standing.forgotten (rfl : s'.session.scheduler = s.session.scheduler) log ended
  constructor
  · exact { upright with
      standing := standing'
      recorded := upright.recorded.told rfl rfl rfl (by simp)
      proper := Phase.toward_proper rest
      settled := fun _ => pending }
  · intro name
    have own : name = o.requestId → Claimed s.session s.engine.posted name := fun same =>
      Or.inr ⟨o, log ▸ List.mem_cons_self, same.symm, ended⟩
    rw [Stranded, Stranded, show Claimed s'.session s'.engine.posted name ↔ _ from claimed name,
      standing.distinct.mem_erase_iff]
    tauto

/-- The first of some sequences was taken in, or no sequence was. -/
def Taking (c : Call) (posted posted' : List SeqId) : Prop :=
  (∃ first, c = .add first ∧ posted = first :: posted') ∨ (∀ id, c ≠ .add id) ∧ posted' = posted

/-- A call constructs a sequence, or is for the oldest command, or for an iteration if there is
    none. -/
def Asked (commands : List Command) : Call → Prop
  | .create _ => True
  | .add id => ∃ rest, commands = .add id :: rest
  | .abort requestId => ∃ rest, commands = .cancel requestId :: rest
  | .step => commands = []
  | .releaseAll _ | .takePending => False

/-- The scheduler was called, and the loop has its outputs in hand, or goes on taking commands over. -/
structure Called (device : Device ω) (c : Call) (s s' : Service ω) : Prop where
  proper : c.Proper s.engine.scheduler
  asked : Asked s.engine.commands c
  onward : s'.engine.commands <:+ s.engine.commands
  taking : Taking c s.engine.posted s'.engine.posted
  scheduler : s'.engine.scheduler = (s.session.perform device c).scheduler
  log : s'.session.log = (s.session.perform device c).log
  record : s'.record = s.record
  live : s'.engine.live = s.engine.live
  closed : s'.engine.closed = s.engine.closed
  loop : s'.engine.loop = s.engine.loop
  loopFailed : s'.engine.loopFailed = s.engine.loopFailed
  next : s'.phase.Proper
  settled : ¬ s'.Draining → s'.engine.scheduler.pending = []

theorem Called.posted {c : Call} {device : Device ω} {id : SeqId} (called : Called device c s s')
    (waits : id ∈ s'.engine.posted) : id ∈ s.engine.posted := by
  rcases called.taking with ⟨first, -, posted⟩ | ⟨-, same⟩
  · rw [posted]
    exact List.mem_cons_of_mem first waits
  · exact same ▸ waits

theorem Called.upheld {c : Call} {device : Device ω} (called : Called device c s s')
    (upright : s.Upright config) (valid : device.Valid) :
    Session.Upheld config s.session (s.session.perform device c) s.engine.posted s'.engine.posted
      s.engine.live := by
  have standing := upright.standing
  rcases called.taking with ⟨first, rfl, posted⟩ | ⟨another, posted⟩
  · rw [posted] at standing ⊢
    exact standing.joined valid
  · exact posted ▸ standing.called valid called.proper another

/-- The scheduler does what it is called for. -/
theorem Called.upright {c : Call} {device : Device ω} (called : Called device c s s')
    (upright : s.Upright config) (valid : device.Valid) :
    s'.Upright config ∧ ∀ name, s'.Stranded name ↔ s.Stranded name := by
  have upheld := called.upheld upright valid
  obtain ⟨proper, -, -, taking, scheduler, log, record, live, closed, loop, loopFailed, next,
    settled⟩ := called
  have same : s'.session.scheduler = (s.session.perform device c).scheduler := scheduler
  have taken : ∀ id, c = .add id → s.Accepted id := by
    intro id adds
    refine upright.recorded.enlisted id (List.mem_append_left _ ?_)
    rcases taking with ⟨first, adds', posted⟩ | ⟨another, -⟩
    · rw [posted, Call.add.inj (adds.symm.trans adds')]
      exact List.mem_cons_self
    · exact absurd adds (another id)
  constructor
  · exact {
      standing := live ▸ upheld.standing.skipped same (log ▸ List.Sublist.refl _)
      recorded := by
        refine upright.recorded.called upright.standing.regular valid proper scheduler record taken ?_
        intro id among
        refine upheld.enlisted id ?_
        rw [Session.enlisted, ← same]
        exact among
      opened := closed.trans upright.opened
      absent := loop.trans upright.absent
      unfailed := loopFailed.trans upright.unfailed
      proper := next
      settled }
  · intro name
    have claimed := (Session.claimed_congr same log name).trans (upheld.claimed name)
    rw [Stranded, Stranded, live]
    exact and_congr_right fun _ => not_congr claimed

theorem Called.adds {id : SeqId} {rest : List Command} {m : Scheduler} (upright : s.Upright config)
    (device : Device ω) (phase : s.phase = .draining []) (commands : s.engine.commands = .add id :: rest)
    (run : Scheduler.add id s.session.scheduler = .ok () m) : Called device (.add id) s
      { s with engine := { s.engine with commands := rest, scheduler := m } } := by
  have posted := posted_add commands
  have performed : s.session.perform device (.add id) =
      { s.session.become m with taken := [(id, s.session.log.length)] } := by
    simp only [Session.perform, run]
    rfl
  exact {
    proper := upright.standing.fresh id (posted ▸ List.mem_cons_self)
    asked := ⟨rest, commands⟩
    onward := commands ▸ List.suffix_cons ..
    taking := Or.inl ⟨id, rfl, posted⟩
    scheduler := by rw [performed]; rfl
    log := by rw [performed]; rfl
    record := rfl
    live := rfl
    closed := rfl
    loop := rfl
    loopFailed := rfl
    next := phase ▸ rfl
    settled := absurd ⟨[], phase⟩ }

theorem Called.cancels {requestId : String} {rest : List Command} {output : Option Output}
    {m : Scheduler} (device : Device ω) (phase : s.phase = .draining [])
    (commands : s.engine.commands = .cancel requestId :: rest)
    (run : Scheduler.abort requestId s.session.scheduler = .ok output m) :
    Called device (.abort requestId) s
      { s with engine := { s.engine with commands := rest, scheduler := m } } := by
  have performed : s.session.perform device (.abort requestId) = s.session.become m := by
    simp only [Session.perform, Action.after, run]
  exact {
    proper := trivial
    asked := ⟨rest, commands⟩
    onward := commands ▸ List.suffix_cons ..
    taking := Or.inr ⟨by simp, (posted_cancel commands).symm⟩
    scheduler := by rw [performed]; rfl
    log := by rw [performed]; rfl
    record := rfl
    live := rfl
    closed := rfl
    loop := rfl
    loopFailed := rfl
    next := phase ▸ rfl
    settled := absurd ⟨[], phase⟩ }

theorem Called.iterates {device : Device ω} {result : StepResult} {d : Driven ω}
    (upright : s.Upright config) (phase : s.phase = .draining []) (commands : s.engine.commands = [])
    (run : Driven.step (some device) s.session.driven = .ok result d) : Called device .step s
      { s with
        engine := { s.engine with
          scheduler := d.scheduler, host := d.device, stats := d.scheduler.stats }
        phase := .toward result.outputs } := by
  have handed : s.session.handed = [] := congrArg Phase.outputs phase
  have performed : s.session.perform device .step =
      { s.session with driven := d, handed := result.outputs } := by
    simp only [Session.perform, run, handed, List.nil_append]
  obtain ⟨_, _, _, _, _, _, _, heard, _⟩ :=
    Driven.step_heard upright.standing.regular.orderly _ _ run
  exact {
    proper := trivial
    asked := commands
    onward := List.suffix_rfl
    taking := Or.inr ⟨by simp, rfl⟩
    scheduler := by rw [performed]; rfl
    log := by
      rw [performed, Session.log, session, Phase.outputs_toward]
      rfl
    record := rfl
    live := rfl
    closed := rfl
    loop := rfl
    loopFailed := rfl
    next := Phase.toward_proper _
    settled := fun _ => heard.pending }

theorem Ticked.called {lost : List Output} (ticked : Ticked host s s' lost) (upright : s.Upright config)
    (draining : s.phase = .draining []) :
    (∃ c, Called host.device c s s') ∧ s'.phase.untold = s'.phase.outputs := by
  have aside : s.phase.untold = s.phase.outputs := by
    rw [draining]
    rfl
  cases ticked with
  | adds phase commands run same =>
      subst same
      exact ⟨⟨_, .adds upright host.device phase commands run⟩, aside⟩
  | cancels phase commands run same =>
      subst same
      exact ⟨⟨_, .cancels host.device phase commands run⟩, aside⟩
  | @iterates result d phase commands run same =>
      subst same
      refine ⟨⟨_, .iterates upright phase commands run⟩, ?_⟩
      rw [Phase.untold_toward, Phase.outputs_toward]
  | begins phase _ | gives phase _ | announces phase _ | forgets phase _ =>
      rw [draining] at phase
      cases phase
  | fails _ calling _ _ => exact absurd ⟨[], draining⟩ calling

/-- Whatever the loop does, requests stay where they should be. Names are stranded by it whose end is
    lost, and none is saved. -/
theorem Ticked.upright {lost : List Output} (ticked : Ticked host s s' lost)
    (upright : s.Upright config) (valid : host.device.Valid) : s'.Upright config ∧
      ∀ name, s'.Stranded name ↔ s.Stranded name ∨ Ends lost name := by
  have nothing : ∀ {s' : Service ω}, (∀ name, s'.Stranded name ↔ s.Stranded name) →
      ∀ name, s'.Stranded name ↔ s.Stranded name ∨ Ends [] name := fun same name =>
    (same name).trans (or_iff_left (not_ends_nil name)).symm
  have ticked' := ticked
  cases ticked' with
  | begins phase same =>
      subst same
      have calling : ¬ s.Draining := by simp [Draining, phase]
      have drains : Phase.Proper (.draining []) := rfl
      have turned := upright.turnedOn s.engine.host (fun _ none => absurd none List.not_mem_nil) calling
        drains (List.nil_sublist _) fun _ _ => by simp [phase, Phase.outputs]
      rw [List.append_nil] at turned
      exact turned.imp_right nothing
  | adds phase _ _ _ | cancels phase _ _ _ | iterates phase _ _ _ =>
      obtain ⟨⟨c, called⟩, -⟩ := ticked.called upright phase
      exact (called.upright upright valid).imp_right nothing
  | @gives o rest w phase same =>
      subst same
      have calling : ¬ s.Draining := by simp [Draining, phase]
      refine (upright.turnedOn w ?_ calling (Phase.behind_proper o rest) ?_ ?_).imp_right nothing
      · split <;> simp
      · exact phase ▸ (Phase.outputs_behind o rest).sublist
      · exact fun other ended => phase ▸ Phase.mem_outputs_behind ended rest
  | @announces o reason rest w phase same =>
      subst same
      have calling : ¬ s.Draining := by simp [Draining, phase]
      have ended : o.reason = some reason := by simpa [Phase.Proper, phase] using upright.proper
      refine (upright.turnedOn w ?_ calling ?_ ?_ ?_).imp_right nothing
      · simp
      · simp [Phase.Proper, ended]
      · exact phase ▸ List.Sublist.refl _
      · exact fun _ _ => phase ▸ Iff.rfl
  | forgets phase same =>
      subst same
      exact (upright.forgotten phase).imp_right nothing
  | @fails w notices raised calling told same =>
      subst same
      exact ⟨upright.turnedTo w told (upright.settled calling) trivial (List.nil_sublist _),
        upright.abandoned w calling⟩

/-- A device that executes nothing. Clients need none. -/
def idleDevice : Device ω where
  execute _ _ w := (⟨.error "no device", []⟩, w)

theorem idleDevice_valid : (idleDevice : Device ω).Valid := by
  intro b qs w samples executed
  cases executed

theorem perform_construct (s : Service ω) (d : Draft) : s.perform (.construct d) = { s with
    engine := { s.engine with scheduler := (Scheduler.create d).after s.engine.scheduler } } := by
  simp only [perform, Engine.onScheduler, Action.after, Action.within]
  cases Scheduler.create d s.engine.scheduler <;> rfl

theorem Upright.constructed (upright : s.Upright config) {d : Draft}
    (takes : s.engine.scheduler.Takes d) : (s.perform (.construct d)).Upright config ∧
      ∀ name, (s.perform (.construct d)).Stranded name ↔ s.Stranded name := by
  have constructed := (Scheduler.create_orderly upright.standing.regular.orderly takes).2.2
  have pending : ((Scheduler.create d).after s.engine.scheduler).pending =
      s.engine.scheduler.pending := constructed.pending
  have called : Called idleDevice (.create d) s (s.perform (.construct d)) := by
    rw [perform_construct]
    exact ⟨takes, trivial, List.suffix_rfl, Or.inr ⟨by simp, rfl⟩, rfl, rfl, rfl, rfl, rfl, rfl, rfl,
      upright.proper, fun outside => pending.trans (upright.settled outside)⟩
  exact called.upright upright idleDevice_valid

theorem Upright.beside (upright : s.Upright config) {e : Engine ω} {journal : Logging.Journal}
    (scheduler : e.scheduler =
      { s.engine.scheduler with cache := { s.engine.scheduler.cache with journal } })
    (posted : e.posted = s.engine.posted) (live : e.live = s.engine.live)
    (closed : e.closed = s.engine.closed) (loop : e.loop = s.engine.loop)
    (loopFailed : e.loopFailed = s.engine.loopFailed) :
    ({ s with engine := e } : Service ω).Upright config ∧
      ∀ name, ({ s with engine := e } : Service ω).Stranded name ↔ s.Stranded name := by
  obtain ⟨standing, recorded, opened, absent, unfailed, proper, settled⟩ := upright
  cases e
  cases scheduler
  cases live
  refine ⟨⟨?_, ⟨recorded.known, ?_, fun id knows outside => ?_⟩, closed.trans opened,
    loop.trans absent, loopFailed.trans unfailed, proper, settled⟩, fun name => ?_⟩
  · rw [posted]
    exact (standing.reported journal).skipped rfl (List.Sublist.refl _)
  · rw [posted]
    exact recorded.enlisted
  · obtain ⟨knows, status, outside⟩ := recorded.fresh id knows outside
    exact ⟨knows, status, outside⟩
  · refine and_congr_right fun _ => not_congr ?_
    rw [posted]
    exact Iff.rfl

/-- What is submitted is accepted, or nothing changes. -/
theorem Upright.submitted (upright : s.Upright config) {id : SeqId}
    (knows : s.engine.scheduler.cache.Knows id) (new : ¬ s.Accepted id) :
    (s.perform (.submit id)).Upright config ∧
      ∀ name, (s.perform (.submit id)).Stranded name ↔ s.Stranded name := by
  by_cases acceptable : s.engine.Acceptable id
  · obtain ⟨standing, recorded, opened, absent, unfailed, proper, settled⟩ := upright
    obtain ⟨requestId, e, run, rfl, rfl⟩ := Engine.accept_returns acceptable
    have fresh := recorded.fresh id knows new
    have unposted : id ∉ s.engine.posted := fun waits =>
      new (recorded.enlisted id (List.mem_append_left _ waits))
    have short := acceptable.short
    rw [show s.engine.scheduler.config = config from standing.regular.config] at short
    have standing' := standing.accepted fresh unposted short acceptable.free
    simp only [perform, run]
    let e : Engine ω := { s.engine with
      live := s.engine.live ++ [(s.engine.scheduler.sequence id).requestId]
      commands := s.engine.commands ++ [.add id] }
    have posted : e.posted = s.engine.posted ++ [id] := by simp [e, Engine.posted]
    rw [← posted] at standing'
    refine ⟨⟨standing', ⟨?known, ?enlisted, ?fresh⟩, opened, absent, unfailed, proper, settled⟩,
      fun name => ?_⟩
    case known =>
      intro other requestId among
      rcases List.mem_append.mp among with old | same
      · exact recorded.known other requestId old
      · cases List.mem_singleton.mp same
        exact ⟨knows, rfl⟩
    case enlisted =>
      intro other among
      have among : other ∈ s.session.enlisted e.posted := among
      rw [posted] at among
      rcases Session.mem_enlisted_append.mp among with old | rfl
      · obtain ⟨requestId, among⟩ := recorded.enlisted other old
        exact ⟨requestId, List.mem_append_left _ among⟩
      · exact ⟨_, List.mem_append_right _ List.mem_cons_self⟩
    case fresh =>
      intro other knows outside
      refine recorded.fresh other knows ?_
      rintro ⟨requestId, among⟩
      exact outside ⟨requestId, List.mem_append_left _ among⟩
    -- the name was free, so nobody could be stranded under it
    · have free := acceptable.free
      have own : name = (s.engine.scheduler.sequence id).requestId → name ∉ s.engine.live := fun same =>
        same ▸ free
      have claimed : Claimed s.session (s.engine.posted ++ [id]) name ↔
          Claimed s.session s.engine.posted name ∨ name = (s.engine.scheduler.sequence id).requestId :=
        Session.claimed_append name
      show name ∈ s.engine.live ++ [_] ∧ ¬ Claimed s.session e.posted name ↔ _
      rw [posted, claimed, List.mem_append, List.mem_singleton, Stranded]
      tauto
  · obtain ⟨fault, e, run, journal, rfl⟩ := Engine.accept_fails acceptable
    simp only [perform, run]
    exact upright.beside rfl rfl rfl rfl rfl rfl

theorem opened_upright (config : Config) (w : ω) : (opened config w).Upright config := by
  have regular := (Session.opened_regular config config.severity.level w).reported
    (Engine.launch config w).scheduler.cache.journal
  refine ⟨⟨regular, List.nodup_nil, ?_, ?_, ?_, List.nodup_nil, ?_, ?_, ?_, ?_, List.Pairwise.nil⟩,
    ⟨?known, ?_, ?fresh⟩, rfl, rfl, rfl, trivial, fun _ => rfl⟩
  case known => exact fun _ _ none => absurd none List.not_mem_nil
  case fresh => exact fun id knows => absurd knows (Nat.not_lt_zero id)
  all_goals
    intro _ none
    exact absurd none List.not_mem_nil

theorem Upright.moved {allowed : Host ω → Prop} {m : Move ω} (upright : s.Upright config)
    (valid : ∀ host, allowed host → host.device.Valid) (proper : s.Proper allowed m) :
    (s.perform m).Upright config ∧ ((∀ host, m = .tick host → host.Calm) →
      ∀ name, (s.perform m).Stranded name ↔ s.Stranded name) := by
  cases m with
  | construct d => exact (upright.constructed proper).imp_right fun stranded _ => stranded
  | submit id =>
      obtain ⟨knows, new⟩ := proper
      have new : ¬ s.Accepted id := fun ⟨requestId, accepted⟩ => new requestId accepted
      exact (upright.submitted knows new).imp_right fun stranded _ => stranded
  | cancel requestId =>
      have posted : ({ s.engine with commands := s.engine.commands ++ [.cancel requestId] } :
          Engine ω).posted = s.engine.posted := by simp [Engine.posted]
      obtain ⟨upright', stranded⟩ := upright.beside
        (e := { s.engine with commands := s.engine.commands ++ [.cancel requestId] }) rfl posted rfl rfl
        rfl rfl
      exact ⟨upright', fun _ => stranded⟩
  | tick host =>
      have hosted := valid host proper
      obtain ⟨lost, ticked⟩ := upright.ticks hosted
      obtain ⟨upright', stranded⟩ := ticked.upright upright hosted
      refine ⟨upright', fun calm name => (stranded name).trans (or_iff_left ?_)⟩
      rw [ticked.lossless (calm host rfl)]
      exact not_ends_nil name

theorem Reached.upright {allowed : Host ω → Prop} (reached : Reached config allowed s)
    (valid : ∀ host, allowed host → host.device.Valid) : s.Upright config := by
  induction reached with
  | opened w => exact opened_upright config w
  | moved _ proper ih => exact (ih.moved valid proper).1

theorem Reached.unstranded {allowed : Host ω → Prop} (reached : Reached config allowed s)
    (valid : ∀ host, allowed host → host.device.Valid) (calm : ∀ host, allowed host → host.Calm)
    (name : String) : ¬ s.Stranded name := by
  induction reached with
  | opened w => exact fun stranded => absurd stranded.1 List.not_mem_nil
  | @moved s m before proper ih =>
      have stranded := ((before.upright valid).moved valid proper).2 fun host ticks => by
        subst ticks
        exact calm host proper
      exact (stranded name).not.mpr ih

end Service

end PagedServing
