import PagedServing.Proofs.Engine.Serving
import PagedServing.Proofs.Scheduler.Termination

/-! # Iterations of the loop

An iteration of the engine is what the loop does from one time that it is idle to the next one. It
takes all commands over, runs an iteration of the scheduler, and delivers what comes of it. Only a
callback makes it fail.
-/

namespace PagedServing

open Scheduler (Call Driven Session)

variable {ω : Type} {host : Host ω}

namespace Engine

/-- An iteration takes all commands over, and the scheduler hands these outputs back. -/
def Brings (host : Host ω) (e : Engine ω) (outputs : List Output) : Prop :=
  ∃ e' result d, applyCommands e = .ok [] e' ∧
    Driven.step (some host.device) ⟨e'.scheduler, e'.host⟩ = .ok result d ∧
      result.outputs = outputs

theorem step_run {e e₁ : Engine ω} {refused : List Output} {result : StepResult} {d : Driven ω}
    (drained : applyCommands e = .ok refused e₁)
    (run : Driven.step (some host.device) ⟨e₁.scheduler, e₁.host⟩ = .ok result d) :
    step host e =
      (deliver host (refused ++ result.outputs) >>= fun _ =>
        pure { result with outputs := refused ++ result.outputs })
      { e₁ with scheduler := d.scheduler, host := d.device, stats := d.scheduler.stats } := by
  have planned : ∃ p s, Scheduler.prepare e₁.scheduler = .ok p s ∧
      Driven.complete host.device p ⟨s, e₁.host⟩ = .ok result d := by
    simp only [Driven.step, Action.demand, bind, EStateM.bind, pure, EStateM.pure,
      Driven.onScheduler, Action.within] at run
    cases prepared : Scheduler.prepare e₁.scheduler <;> simp only [prepared] at run
    · exact ⟨_, _, rfl, run⟩
    · cases run
  obtain ⟨p, s, prepared, completed⟩ := planned
  simp only [step, commence, bind, EStateM.bind, drained, onScheduler, Action.within, prepared, pure,
    EStateM.pure, complete, onDriven, completed, takeStats, Action.run_modify]

end Engine

namespace Service

variable {config : Config} {s s' s'' : Service ω} {lost : List Output}

theorem ticks_add (host : Host ω) (m n : Nat) (s : Service ω) :
    s.ticks host (m + n) = (s.ticks host m).ticks host n := by
  induction m generalizing s with
  | zero => rw [Nat.zero_add]; rfl
  | succ m ih => rw [Nat.succ_add]; exact ih (s.tick host)

theorem Upright.ticks_accepting (upright : s.Upright config) (valid : host.device.Valid) (n : Nat) :
    (s.ticks host n).engine.accepting = s.engine.accepting := by
  induction n generalizing s with
  | zero => rfl
  | succ n ih =>
      obtain ⟨lost, ticked⟩ := upright.ticks valid
      refine (ih (ticked.upright upright valid).1).trans ?_
      cases ticked with
      | begins _ same | adds _ _ _ same | cancels _ _ _ same | iterates _ _ _ same
      | gives _ same | announces _ same | forgets _ same | fails _ _ _ same => rw [same]

/-- The loop delivered something. Some outputs may have been lost. -/
structure Delivered (config : Config) (s s' : Service ω) (lost : List Output) : Prop where
  upright : s'.Upright config
  outputs : s'.phase.outputs <:+ s.phase.outputs
  behind : lost <:+ s.phase.outputs
  scheduler : s'.engine.scheduler = s.engine.scheduler
  commands : s'.engine.commands = s.engine.commands
  stranded : ∀ name, s'.Stranded name ↔ s.Stranded name ∨ Ends lost name

theorem Delivered.refl (upright : s.Upright config) : Delivered config s s [] :=
  ⟨upright, List.suffix_rfl, List.nil_suffix, rfl, rfl, fun name =>
    (or_iff_left (not_ends_nil name)).symm⟩

theorem Delivered.trans (first : Delivered config s s' []) (second : Delivered config s' s'' lost) :
    Delivered config s s'' lost where
  upright := second.upright
  outputs := second.outputs.trans first.outputs
  behind := second.behind.trans first.outputs
  scheduler := second.scheduler.trans first.scheduler
  commands := second.commands.trans first.commands
  stranded name := by
    rw [second.stranded, first.stranded, or_iff_left (not_ends_nil name)]

theorem Ticked.delivered (ticked : Ticked host s s' lost) (upright : s.Upright config)
    (valid : host.device.Valid) (calling : ¬ s.Draining) : Delivered config s s' lost := by
  obtain ⟨upright', stranded⟩ := ticked.upright upright valid
  have same : s'.engine.scheduler = s.engine.scheduler ∧ s'.engine.commands = s.engine.commands := by
    cases ticked with
    | adds phase | cancels phase | iterates phase => exact absurd ⟨[], phase⟩ calling
    | begins _ same | gives _ same | announces _ same | forgets _ same | fails _ _ _ same =>
        exact same ▸ ⟨rfl, rfl⟩
  have outputs : s'.phase.outputs <:+ s.phase.outputs ∧ lost <:+ s.phase.outputs := by
    cases ticked with
    | adds phase | cancels phase | iterates phase => exact absurd ⟨[], phase⟩ calling
    | begins _ same => exact same ▸ ⟨List.nil_suffix, List.nil_suffix⟩
    | gives phase same =>
        rw [same, phase]
        exact ⟨Phase.outputs_behind _ _, List.nil_suffix⟩
    | announces phase same =>
        rw [same, phase]
        exact ⟨List.suffix_rfl, List.nil_suffix⟩
    | forgets phase same =>
        rw [same, phase, Phase.outputs_toward]
        exact ⟨List.suffix_cons _ _, List.nil_suffix⟩
    | fails _ _ _ same => exact same ▸ ⟨List.nil_suffix, List.suffix_rfl⟩
  exact ⟨upright', outputs.1, outputs.2, same.1, same.2, stranded⟩

/-- What comes of an action that delivers outputs. -/
inductive Outcome (host : Host ω) (action : Action (Engine ω) Unit) (next : Phase)
    (s s' : Service ω) : List Output → Prop where
  /-- All was delivered, -/
  | returned (ran : action s.engine = .ok () s'.engine) (phase : s'.phase = next) :
      Outcome host action next s s' []
  /-- or a callback failed, and some outputs are lost. -/
  | failed {fault : Fault} {o : Output} {rest : List Output}
      (ran : action s.engine = .error fault s'.engine) (phase : s'.phase = .idle)
      (raised : ¬ host.Calm) : Outcome host action next s s' (o :: rest)

/-- Some actions of the loop come to the same as an action that delivers outputs. -/
def Delivers (config : Config) (host : Host ω) (action : Action (Engine ω) Unit) (next : Phase)
    (s : Service ω) : Prop :=
  ∃ n lost, Delivered config s (s.ticks host n) lost ∧
    Outcome host action next s (s.ticks host n) lost

section Delivers

variable {action action' : Action (Engine ω) Unit} {next next' : Phase} {o : Output}
  {rest : List Output} {notices : List Notice}

theorem Delivers.nothing (upright : s.Upright config) (phase : s.phase = next) :
    Delivers config host (pure ()) next s :=
  ⟨0, [], .refl upright, .returned rfl phase⟩

theorem Delivers.andThen (first : Delivers config host action next s)
    (second : ∀ s', s'.Upright config → s'.phase = next → Delivers config host action' next' s') :
    Delivers config host (action >>= fun _ => action') next' s := by
  obtain ⟨m, lost, delivered, outcome⟩ := first
  cases outcome with
  | returned ran phase =>
      obtain ⟨n, lost, delivered', outcome⟩ := second _ delivered.upright phase
      refine ⟨m + n, lost, ?_, ?_⟩
      · rw [ticks_add]
        exact delivered.trans delivered'
      · rw [ticks_add]
        cases outcome with
        | returned ran' phase =>
            exact .returned (by simp only [bind, EStateM.bind, ran, ran']) phase
        | failed ran' phase raised =>
            exact .failed (by simp only [bind, EStateM.bind, ran, ran']; rfl) phase raised
  | failed ran phase raised =>
      exact ⟨m, _, delivered, .failed (by simp only [bind, EStateM.bind, ran]; rfl) phase raised⟩

/-- A callback is called in one action of the loop. -/
theorem Upright.calls (upright : s.Upright config) (valid : host.device.Valid)
    (calling : ¬ s.Draining) (outputs : s.phase.outputs = o :: rest)
    (nobody : ∀ notice ∈ notices, ¬ notice.IsAcceptance)
    (tick : s.tick host = s.act action (fun _ => next) notices)
    (ran : (∃ w, action s.engine = .ok () { s.engine with host := w }) ∨
      ¬ host.Calm ∧ ∃ fault w, action s.engine = .error fault { s.engine with host := w })
    (ticked : ∀ w, s.tick host =
      { engine := { s.engine with host := w }, phase := next, record := s.record ++ notices } →
        Ticked host s (s.tick host) []) :
    Delivers config host action next s := by
  rcases ran with ⟨w, ran⟩ | ⟨raised, fault, w, ran⟩
  · have same := tick.trans (act_ok ran)
    refine ⟨1, [], (ticked w same).delivered upright valid calling, ?_⟩
    rw [show s.ticks host 1 = _ from same]
    exact .returned ran rfl
  · have same := tick.trans (act_error ran)
    have failed := Ticked.fails raised calling nobody same
    rw [outputs] at failed
    refine ⟨1, o :: rest, failed.delivered upright valid calling, ?_⟩
    rw [show s.ticks host 1 = _ from same]
    exact .failed ran rfl raised

theorem Upright.gives (upright : s.Upright config) (valid : host.device.Valid)
    (phase : s.phase = .giving o rest) :
    Delivers config host (Engine.giveTokens host o) (.behind o rest) s := by
  let notices := if o.tokens.isEmpty then [] else [Notice.tokens o.requestId o.tokens]
  have nobody : ∀ notice ∈ notices, ¬ notice.IsAcceptance := by
    simp only [notices]
    split <;> simp
  refine upright.calls valid (by simp [Draining, phase]) (by rw [phase]; rfl) nobody ?_
    (Engine.giveTokens_cases host o s.engine) fun w same => .gives phase same
  simp only [Service.tick, phase, notices]

theorem Upright.announces (upright : s.Upright config) (valid : host.device.Valid)
    {reason : FinishReason} (phase : s.phase = .announcing o reason rest) :
    Delivers config host (Engine.announceEnd host o.requestId reason) (.forgetting o rest) s := by
  refine upright.calls valid (by simp [Draining, phase]) (by rw [phase]; rfl) (by simp) ?_
    (Engine.announceEnd_cases host o.requestId reason s.engine) fun w same => .announces phase same
  simp only [Service.tick, phase]

theorem Upright.forgets (upright : s.Upright config) (valid : host.device.Valid)
    (phase : s.phase = .forgetting o rest) :
    Delivers config host (Engine.forget o.requestId) (.toward rest) s := by
  have ran : Engine.forget o.requestId s.engine =
      .ok () { s.engine with live := s.engine.live.erase o.requestId } := rfl
  have same : s.tick host = _ := (by rw [Service.tick, phase] :
    s.tick host = s.act (Engine.forget o.requestId) _ [.forgotten o.requestId]).trans (act_ok ran)
  refine ⟨1, [], (Ticked.forgets phase same).delivered upright valid (by simp [Draining, phase]), ?_⟩
  rw [show s.ticks host 1 = _ from same]
  exact .returned ran rfl

theorem Upright.deliversOne (upright : s.Upright config) (valid : host.device.Valid)
    (phase : s.phase = .giving o rest) :
    Delivers config host (Engine.deliverOne host o) (.toward rest) s := by
  refine (upright.gives valid phase).andThen fun s₁ upright₁ phase₁ => ?_
  cases ended : o.reason with
  | none => exact .nothing upright₁ (phase₁.trans (Phase.behind_of_unended ended rest))
  | some reason =>
      have phase₁ := phase₁.trans (Phase.behind_of_ended ended rest)
      exact (upright₁.announces valid phase₁).andThen fun s₂ upright₂ phase₂ =>
        upright₂.forgets valid phase₂

theorem Upright.delivers {os : List Output} (upright : s.Upright config)
    (valid : host.device.Valid) (phase : s.phase = .toward os) :
    Delivers config host (Engine.deliver host os) .idle s := by
  induction os generalizing s with
  | nil => exact .nothing upright phase
  | cons o rest ih =>
      exact (upright.deliversOne valid phase).andThen fun s' upright' phase' => ih upright' phase'

end Delivers

/-- What is left to do for a sequence. Whoever was posted may get all its tokens, and ends. -/
def due (s : Service ω) (id : SeqId) : Int :=
  if id ∈ s.engine.posted then (s.engine.scheduler.sequence id).sampling.maxTokens + 1
  else s.engine.scheduler.due id

theorem due_congr (scheduler : s'.engine.scheduler = s.engine.scheduler)
    (commands : s'.engine.commands = s.engine.commands) (id : SeqId) : s'.due id = s.due id := by
  have posted : s'.engine.posted = s.engine.posted := by rw [Engine.posted, Engine.posted, commands]
  rw [due, due, posted, scheduler]

theorem Upright.due_nonneg (upright : s.Upright config) (id : SeqId) : 0 ≤ s.due id := by
  have regular := upright.standing.regular
  rw [due]
  split
  · omega
  · exact Scheduler.due_nonneg regular.orderly regular.paced id

theorem Upright.due_pos (upright : s.Upright config) (id : SeqId) :
    0 < s.due id ↔ id ∈ s.session.enlisted s.engine.posted := by
  have regular := upright.standing.regular
  rw [Session.enlisted, List.mem_append, due]
  split
  · rename_i waits
    exact iff_of_true (by omega) (Or.inl waits)
  · rename_i outside
    rw [or_iff_right outside]
    exact Scheduler.due_pos regular.orderly regular.paced

theorem due_of_unposted (commands : s.engine.commands = []) (id : SeqId) :
    s.due id = s.engine.scheduler.due id := by
  simp [due, Engine.posted, commands]

theorem Upright.due_taken (upright : s.Upright config) {id : SeqId} {posted : List SeqId}
    (first : s.engine.posted = id :: posted) (posted' : s'.engine.posted = posted)
    (took : s.engine.scheduler.TakenUp s'.engine.scheduler id) (other : SeqId) :
    s'.due other ≤ s.due other := by
  obtain ⟨absent, -⟩ := List.nodup_cons.mp (first ▸ upright.standing.nodup)
  have same : s'.engine.scheduler.sequence other = s.engine.scheduler.sequence other :=
    took.sequences other
  have rest : s'.engine.scheduler.rest other = s.engine.scheduler.rest other :=
    Scheduler.rest_of_account took.config (congrArg Sequence.account same)
  rw [due, due, posted', first, same]
  by_cases own : other = id
  · subst own
    rw [if_neg absent, if_pos List.mem_cons_self, Scheduler.due,
      if_pos (took.requests ▸ List.mem_append_right _ List.mem_cons_self), rest, Scheduler.rest]
    omega
  · have waits : other ∈ id :: posted ↔ other ∈ posted := by rw [List.mem_cons, or_iff_right own]
    have member : other ∈ s'.engine.scheduler.requests.values ↔
        other ∈ s.engine.scheduler.requests.values := by
      rw [took.requests, List.mem_append, List.mem_singleton, or_iff_left own]
    simp only [waits, Scheduler.due, member, rest]
    exact Int.le_refl _

theorem Ticked.due (ticked : Ticked host s s' lost) (upright : s.Upright config)
    (valid : host.device.Valid) (id : SeqId) : s'.due id ≤ s.due id := by
  have regular := upright.standing.regular
  cases ticked with
  | @adds new rest m phase commands run same =>
      have posted := posted_add commands
      have posted' : s'.engine.posted = ({ s.engine with commands := rest } : Engine ω).posted :=
        same ▸ rfl
      have scheduler : s'.engine.scheduler = m := same ▸ rfl
      obtain ⟨m', run', -, took, -⟩ :=
        upright.standing.took host.device (posted ▸ List.mem_cons_self : new ∈ s.engine.posted)
      obtain rfl : m = m' := by
        rw [show Scheduler.add new s.session.scheduler = _ from run] at run'
        cases run'
        rfl
      exact upright.due_taken posted posted' (scheduler ▸ took) id
  | @cancels name rest output m phase commands run same =>
      subst same
      obtain ⟨-, -, thinned⟩ := (Scheduler.abort_returns regular.orderly name).of_run run
      have less : m.due id ≤ s.engine.scheduler.due id :=
        thinned.due regular.orderly regular.paced id
      have sampling : (m.sequence id).sampling = (s.engine.scheduler.sequence id).sampling :=
        congrArg Origin.sampling (thinned.reduced.origins id)
      have posted : ({ s.engine with commands := rest, scheduler := m } : Engine ω).posted =
          s.engine.posted := (posted_cancel commands).symm
      rw [Service.due, Service.due, posted, sampling]
      split
      · exact Int.le_refl _
      · exact less
  | @iterates result d phase commands run same =>
      obtain ⟨-, -, round⟩ := (Driven.step_round regular.orderly regular.paced valid).of_run run
      have commands' : s'.engine.commands = [] := same ▸ commands
      have scheduler : s'.engine.scheduler = d.scheduler := same ▸ rfl
      rw [due_of_unposted commands', due_of_unposted commands, scheduler]
      exact (round.due regular.orderly regular.paced).1 id
  | begins _ same | gives _ same | announces _ same | forgets _ same | fails _ _ _ same =>
      exact Int.le_of_eq (due_congr (same ▸ rfl) (same ▸ rfl) id)

/-- One service comes from another as the scheduler is called time and again. -/
inductive Comes (config : Config) (device : Device ω) : Service ω → Service ω → Prop where
  | refl (s : Service ω) : Comes config device s s
  | call {s s' s'' : Service ω} {c : Call} (upright : s.Upright config) (called : Called device c s s')
      (rest : Comes config device s' s'') : Comes config device s s''

/-- The loop takes all commands over, and refuses none. -/
theorem Upright.drains (upright : s.Upright config) (valid : host.device.Valid)
    (phase : s.phase = .draining []) : ∃ n, let s' := s.ticks host n
      s'.Upright config ∧ s'.phase = .draining [] ∧ s'.engine.commands = [] ∧
        Engine.applyCommands s.engine = .ok [] s'.engine ∧
        (∀ name, s'.Stranded name ↔ s.Stranded name) ∧ (∀ id, s'.due id ≤ s.due id) ∧
        Comes config host.device s s' := by
  show ∃ n, let s' := s.ticks host n
    s'.Upright config ∧ s'.phase = .draining [] ∧ s'.engine.commands = [] ∧
      Engine.applyMany s.engine.commands.length s.engine = .ok [] s'.engine ∧ _
  induction queued : s.engine.commands generalizing s with
  | nil => exact ⟨0, upright, phase, queued, rfl, fun _ => Iff.rfl, fun _ => Int.le_refl _, .refl s⟩
  | cons c rest ih =>
      obtain ⟨lost, ticked⟩ := upright.ticks valid
      have due := ticked.due upright valid
      obtain ⟨upright', stranded⟩ := ticked.upright upright valid
      obtain ⟨⟨_, called⟩, -⟩ := ticked.called upright phase
      have taken : (s.tick host).phase = .draining [] ∧ (s.tick host).engine.commands = rest ∧
          Engine.applyNext s.engine = .ok [] (s.tick host).engine ∧ lost = [] := by
        cases ticked with
        | adds _ commands run same =>
            obtain rfl := (List.cons.inj (queued.symm.trans commands)).2
            rw [same]
            exact ⟨phase, rfl, applyNext_add commands run, rfl⟩
        | cancels _ commands run same =>
            obtain rfl := (List.cons.inj (queued.symm.trans commands)).2
            rw [same]
            exact ⟨phase, rfl, applyNext_cancel commands run, rfl⟩
        | iterates _ commands _ _ => exact absurd (queued.symm.trans commands) (List.cons_ne_nil c rest)
        | begins other | gives other | announces other | forgets other => simp [phase] at other
        | fails _ calling _ _ => exact absurd ⟨[], phase⟩ calling
      obtain ⟨phase', commands', ran, rfl⟩ := taken
      obtain ⟨n, upright'', phase'', commands'', ran', stranded', due', comes⟩ :=
        ih upright' phase' commands'
      refine ⟨n + 1, upright'', phase'', commands'', ?_, fun name => ?_, fun id => ?_,
        .call upright called comes⟩
      · simp only [List.length_cons, Engine.applyMany, bind, EStateM.bind, ran]
        rw [ran']
        rfl
      · exact (stranded' name).trans ((stranded name).trans (or_iff_left (not_ends_nil name)))
      · exact (due' id).trans (due id)

/-- What an iteration comes to that an engine has begun. -/
structure Iterated (config : Config) (host : Host ω) (e : Engine ω) (s s' : Service ω) : Prop where
  upright : s'.Upright config
  phase : s'.phase = .idle
  commands : s'.engine.commands = []
  due : ∀ id, s'.due id ≤ s.due id
  less : s'.engine.scheduler.requests.values = [] ∨ ∃ id, s'.due id < s.due id
  /-- It returns, and no name is stranded, or a callback fails and outputs are lost. -/
  outcome : (∃ result, Engine.step host e = .ok result s'.engine) ∧
      (∀ name, s'.Stranded name ↔ s.Stranded name) ∨
    ¬ host.Calm ∧ (∃ fault, Engine.step host e = .error fault s'.engine) ∧
      ∃ given lost, Engine.Brings host e (given ++ lost) ∧ lost ≠ [] ∧
        ∀ name, s'.Stranded name ↔ s.Stranded name ∨ Ends lost name

theorem Iterated.since {e : Engine ω} (iterated : Iterated config host e s' s'')
    (due : ∀ id, s'.due id ≤ s.due id) (stranded : ∀ name, s'.Stranded name ↔ s.Stranded name) :
    Iterated config host e s s'' where
  upright := iterated.upright
  phase := iterated.phase
  commands := iterated.commands
  due id := (iterated.due id).trans (due id)
  less := iterated.less.imp_right fun ⟨id, less⟩ => ⟨id, less.trans_le (due id)⟩
  outcome := by
    simpa only [stranded] using iterated.outcome

/-- After all commands were taken over, an iteration of the scheduler is run and its outputs are
    delivered. -/
theorem Upright.runs {e : Engine ω} (upright : s.Upright config) (valid : host.device.Valid)
    (phase : s.phase = .draining []) (commands : s.engine.commands = [])
    (drained : Engine.applyCommands e = .ok [] s.engine) :
    ∃ n, Iterated config host e s (s.ticks host n) := by
  have regular := upright.standing.regular
  obtain ⟨result, d, run, orderly', paced', round⟩ := Driven.step_round
    (d := ⟨s.engine.scheduler, s.engine.host⟩) regular.orderly regular.paced valid
  let s₁ : Service ω := { s with
    engine := { s.engine with
      scheduler := d.scheduler, host := d.device, stats := d.scheduler.stats }
    phase := .toward result.outputs }
  -- one tick runs the iteration, and the others deliver its outputs
  have iterated : s.tick host = s₁ := by
    have none : s.engine.commands.isEmpty = true := List.isEmpty_iff.mpr commands
    simp only [tick, phase, none, if_true]
    rw [act_ok (iterate_ok run), List.append_nil s.record]
    rfl
  have iterates : Ticked host s s₁ [] := .iterates phase commands run rfl
  obtain ⟨upright₁, stranded₁⟩ := iterates.upright upright valid
  obtain ⟨n, lost, delivered, outcome⟩ := upright₁.delivers valid rfl
  have due : ∀ id, (s₁.ticks host n).due id = d.scheduler.due id := fun id =>
    (due_congr delivered.scheduler delivered.commands id).trans (due_of_unposted (s := s₁) commands id)
  have stranded : ∀ name, (s₁.ticks host n).Stranded name ↔ s.Stranded name ∨ Ends lost name := by
    intro name
    rw [delivered.stranded, stranded₁, or_iff_left (not_ends_nil name)]
  obtain ⟨each, progress⟩ := round.due regular.orderly regular.paced
  have step := Engine.step_run drained run
  refine ⟨n + 1, ?_⟩
  rw [show s.ticks host (n + 1) = s₁.ticks host n from congrArg (Service.ticks host n) iterated]
  refine ⟨delivered.upright, ?_, delivered.commands.trans commands, fun id => ?_, ?_, ?_⟩
  · cases outcome with
    | returned _ phase => exact phase
    | failed _ phase _ => exact phase
  · rw [due, due_of_unposted commands]
    exact each id
  · rcases progress with none | ⟨id, -, less⟩
    · left
      rw [delivered.scheduler]
      exact Scheduler.values_eq_nil_of_due_le regular.orderly regular.paced orderly' paced' each none
    · right
      refine ⟨id, ?_⟩
      rw [due, due_of_unposted commands]
      exact less
  · cases outcome with
    | returned ran _ =>
        refine Or.inl ⟨⟨{ result with outputs := [] ++ result.outputs }, ?_⟩, fun name => ?_⟩
        · rw [step, List.nil_append]
          simp only [bind, EStateM.bind]
          rw [show Engine.deliver host result.outputs _ = _ from ran]
          rfl
        · exact (stranded name).trans (or_iff_left (not_ends_nil name))
    | @failed fault _ _ ran _ raised =>
        have behind := delivered.behind
        rw [show s₁.phase.outputs = _ from Phase.outputs_toward result.outputs] at behind
        obtain ⟨given, all⟩ := behind
        refine Or.inr ⟨raised, ⟨fault, ?_⟩, given, _, ⟨_, result, d, drained, run, all.symm⟩,
          List.cons_ne_nil _ _, stranded⟩
        rw [step, List.nil_append]
        simp only [bind, EStateM.bind]
        rw [show Engine.deliver host result.outputs _ = _ from ran]

theorem Upright.iterated (upright : s.Upright config) (valid : host.device.Valid)
    (idle : s.phase = .idle) : ∃ n, Iterated config host s.engine s (s.ticks host n) := by
  have begun : s.tick host = { s with phase := .draining [] } := by simp only [tick, idle]
  have begins : Ticked host s (s.tick host) [] := .begins idle begun
  obtain ⟨upright₁, stranded₁⟩ := begins.upright upright valid
  obtain ⟨m, upright₂, phase₂, commands₂, drained, stranded₂, due₂, -⟩ :=
    upright₁.drains valid (begun ▸ rfl)
  have same : (s.tick host).engine = s.engine := by rw [begun]
  obtain ⟨n, iterated⟩ := upright₂.runs valid phase₂ commands₂ (same ▸ drained)
  refine ⟨m + n + 1, ?_⟩
  rw [show s.ticks host (m + n + 1) = _ from ticks_add host m n (s.tick host)]
  refine iterated.since (fun id => (due₂ id).trans (begins.due upright valid id)) fun name => ?_
  exact (stranded₂ name).trans ((stranded₁ name).trans (or_iff_left (not_ends_nil name)))

/-- Whatever the loop is about, it becomes idle. -/
theorem Upright.rests (upright : s.Upright config) (valid : host.device.Valid) :
    ∃ n, (s.ticks host n).phase = .idle := by
  have ends : ∀ {action : Action (Engine ω) Unit}, Delivers config host action .idle s →
      ∃ n, (s.ticks host n).phase = .idle := by
    rintro action ⟨n, lost, -, outcome⟩
    cases outcome with
    | returned _ phase => exact ⟨n, phase⟩
    | failed _ phase _ => exact ⟨n, phase⟩
  cases phase : s.phase with
  | idle => exact ⟨0, phase⟩
  | draining refused =>
      have none : refused = [] := by simpa [Phase.Proper, phase] using upright.proper
      subst none
      obtain ⟨m, upright', phase', commands, drained, -, -, -⟩ := upright.drains valid phase
      obtain ⟨n, iterated⟩ := upright'.runs valid phase' commands drained
      exact ⟨m + n, by rw [ticks_add]; exact iterated.phase⟩
  | giving o rest =>
      exact ends <| (upright.deliversOne valid phase).andThen
        fun _ upright' phase' => upright'.delivers valid phase'
  | announcing o reason rest =>
      exact ends <| ((upright.announces valid phase).andThen
        fun _ upright' phase' => upright'.forgets valid phase').andThen
          fun _ upright' phase' => upright'.delivers valid phase'
  | forgetting o rest =>
      exact ends <| (upright.forgets valid phase).andThen
        fun _ upright' phase' => upright'.delivers valid phase'

end Service

end PagedServing
