import PagedServing.Engine.Offline
import PagedServing.Proofs.Engine.Frame
import PagedServing.Proofs.Engine.Winding
import PagedServing.Proofs.Scheduler.Reference

/-! # Following a request

Whoever drives an engine gathers outputs, those of other requests among them. A request is followed
from the time at which it is posted until it has ended: on a device that answers every history by a
function, what was gathered under its name at last is what the reference loop makes of its prompt.
-/

namespace PagedServing

open Scheduler (Call Driven Session)
open Scheduler.Session (Unharmed)

variable {ω : Type} {config : Config} {f : List Int → Int} {id : SeqId} {name : String}
  {p : List Int × Sampling} {outputs : List Output}

/-- What a sequence was constructed for: a name, a prompt, and how to sample. -/
def Sequence.inquiry (q : Sequence) : String × List Int × Sampling :=
  (q.requestId, q.prompt, q.sampling)

theorem Sequence.inquiry_of_origin {q q' : Sequence} (same : q'.origin = q.origin) :
    q'.inquiry = q.inquiry :=
  congrArg (fun o : Origin => (o.requestId, o.prompt, o.sampling)) same

namespace Engine

variable {e e' : Engine ω}

/-- What the reference loop makes of a prompt. -/
def expected (f : List Int → Int) (config : Config) (p : List Int × Sampling) : Completion :=
  let (tokens, reason) := reference f config.eos config.maxLength p.2 p.1 []
  { tokens, reason }

/-- A request was taken over from the commands. It goes the way of the reference loop, and what was
    gathered under its name, or is pending, is all that was heard of it. -/
structure Underway (f : List Int → Int) (e : Engine ω) (outputs : List Output) (name : String)
    (id : SeqId) : Prop where
  admitted : id ∈ e.scheduler.requests.values ∨ (e.scheduler.sequence id).isFinished = true
  agrees : e.scheduler.ledger.Agrees f id
  voiced : e.scheduler.ledger.Voiced id ((outputs ++ e.scheduler.pending).filter (·.requestId = name))

/-- How far a request has got whose outputs are gathered. -/
structure Followed (f : List Int → Int) (e : Engine ω) (outputs : List Output) (name : String)
    (p : List Int × Sampling) (id : SeqId) : Prop where
  inquiry : (e.scheduler.sequence id).inquiry = (name, p)
  /-- Nobody else who is posted or registered goes by its name, -/
  alone : ∀ other ∈ e.posted ++ e.scheduler.requests.values,
    (e.scheduler.sequence other).requestId = name → other = id
  /-- and what is cancelled under its name is cancelled before the request is taken over. -/
  spared : ∀ rest, .cancel name :: rest <:+ e.commands → .add id ∈ rest
  course : (id ∈ e.posted ∧ ∀ o ∈ outputs, o.requestId ≠ name) ∨ Underway f e outputs name id

theorem mem_posted : id ∈ e.posted ↔ .add id ∈ e.commands := by
  rw [posted, List.mem_filterMap]
  constructor
  · rintro ⟨command, among, same⟩
    cases command <;> simp_all
  · exact fun among => ⟨_, among, rfl⟩

theorem Followed.named (followed : Followed f e outputs name p id) :
    (e.scheduler.sequence id).requestId = name :=
  congrArg Prod.fst followed.inquiry

theorem Followed.congr (followed : Followed f e outputs name p id)
    (scheduler : e'.scheduler = e.scheduler) (commands : e'.commands = e.commands) :
    Followed f e' outputs name p id := by
  have posted : e'.posted = e.posted := by rw [Engine.posted, Engine.posted, commands]
  obtain ⟨inquiry, alone, spared, course⟩ := followed
  constructor
  · rwa [scheduler]
  · rwa [posted, scheduler]
  · rwa [commands]
  · rw [posted]
    refine course.imp_right fun underway => ⟨?_, ?_, ?_⟩ <;> rw [scheduler]
    · exact underway.admitted
    · exact underway.agrees
    · exact underway.voiced

theorem Underway.completion (underway : Underway f e outputs name id)
    (inquiry : (e.scheduler.sequence id).inquiry = (name, p)) (pending : e.scheduler.pending = [])
    (absent : id ∉ e.scheduler.requests.values) :
    completionOf? outputs name = some (expected f e.scheduler.config p) := by
  obtain ⟨-, agrees, voiced⟩ := underway
  have absent : id ∉ e.scheduler.ledger.requests.values := absent
  rw [Ledger.Agrees, if_neg absent] at agrees
  rw [Ledger.Voiced, if_neg absent, pending, List.append_nil] at voiced
  obtain ⟨reason, noted, loop⟩ := agrees
  obtain ⟨front, last, own, unended, ending, _⟩ := voiced.last
  have reasons : front.filterMap (·.reason) = [] := List.filterMap_eq_nil_iff.mpr unended
  have told : reasonOf? name outputs = some reason := by
    rw [reasonOf?, own, List.filterMap_append, reasons]
    simp [ending, noted]
  have tokens : tokensOf name outputs = (e.scheduler.ledger.transcript id).completion := voiced.tokens
  have asked : reference f e.scheduler.config.eos e.scheduler.config.maxLength p.2 p.1 [] =
      ((e.scheduler.ledger.transcript id).completion, reason) := by
    obtain ⟨prompt, sampling⟩ := Prod.ext_iff.mp (congrArg Prod.snd inquiry)
    rw [← prompt, ← sampling]
    exact loop
  rw [completionOf?, told, tokens, expected, asked]
  rfl

theorem Followed.completion (followed : Followed f e outputs name p id)
    (pending : e.scheduler.pending = []) {completion : Completion}
    (complete : completionOf? outputs name = some completion) :
    completion = expected f e.scheduler.config p := by
  have ended : ∃ o ∈ outputs, o.requestId = name ∧ o.reason ≠ none := by
    obtain ⟨reason, told, -⟩ := Option.map_eq_some_iff.mp complete
    obtain ⟨o, among, some⟩ := List.mem_filterMap.mp (List.mem_of_getLast? told)
    obtain ⟨among, own⟩ := List.mem_filter.mp among
    exact ⟨o, among, of_decide_eq_true own, by simp [some]⟩
  obtain ⟨o, among, own, last⟩ := ended
  rcases followed.course with ⟨-, silent⟩ | underway
  · exact absurd own (silent o among)
  · have absent : id ∉ e.scheduler.requests.values := by
      intro member
      have voiced := underway.voiced
      rw [Ledger.Voiced, if_pos (show id ∈ e.scheduler.ledger.requests.values from member)] at voiced
      refine last (voiced.unended o (List.mem_filter.mpr ⟨List.mem_append_left _ among, ?_⟩))
      exact decide_eq_true own
    have whole := underway.completion followed.inquiry pending absent
    exact Option.some.inj (complete.symm.trans whole)

theorem step_run_inv {host : Host ω} {e e₁ e' : Engine ω} {result result' : StepResult} {d : Driven ω}
    (drained : applyCommands e = .ok [] e₁)
    (run : Driven.step (some host.device) ⟨e₁.scheduler, e₁.host⟩ = .ok result d)
    (step : Engine.step host e = .ok result' e') :
    result'.outputs = result.outputs ∧ e'.scheduler = d.scheduler ∧ e'.commands = e₁.commands := by
  let q (e : Engine ω) : Prop := e.scheduler = d.scheduler ∧ e.commands = e₁.commands
  let e₂ : Engine ω :=
    { e₁ with scheduler := d.scheduler, host := d.device, stats := d.scheduler.stats }
  have kept : (deliver host ([] ++ result.outputs)).Yields e₂ (fun _ => q) fun _ => q :=
    deliver_changes (fun _ _ _ holds => holds) (fun _ _ holds => holds) _ e₂ ⟨rfl, rfl⟩
  have yields : (deliver host ([] ++ result.outputs) >>= fun _ =>
      pure { result with outputs := [] ++ result.outputs }).Yields e₂
        (fun answer e => answer.outputs = result.outputs ∧ q e) fun _ => q :=
    Action.yields_bind.mpr (kept.weaken (fun _ _ holds => ⟨rfl, holds⟩) fun _ _ holds => holds)
  rw [step_run drained run] at step
  exact yields.of_ok step

section Called

variable {s s' : Service ω} {c : Call} {device : Device ω} {host : Host ω} {os : List Output}

theorem Followed.knows (followed : Followed f s.engine os name p id) (upright : s.Upright config) :
    s.engine.scheduler.cache.Knows id := by
  rcases followed.course with ⟨waits, -⟩ | underway
  · exact (upright.standing.fresh id waits).knows
  · have admitted : s.session.Admitted id := underway.admitted
    exact admitted.knows upright.standing.regular

/-- The loop does not give a request up: what is cancelled under its name is cancelled while it is
    posted. -/
theorem Followed.unharmed (followed : Followed f s.engine os name p id) (upright : s.Upright config)
    (asked : Service.Asked s.engine.commands c) : Unharmed id s.session c := by
  have orderly := upright.standing.regular.orderly
  cases c with
  | abort other =>
      obtain ⟨rest, commands⟩ := asked
      intro found
      have registered := OrderedMap.mem_of_get? found
      have own : other = name := (orderly.named.named _ registered).trans followed.named
      have waits := followed.spared rest (own ▸ commands ▸ List.suffix_rfl)
      have posted : id ∈ s.engine.posted := mem_posted.mpr (commands ▸ List.mem_cons_of_mem _ waits)
      exact (upright.standing.fresh id posted).unregistered orderly
        (OrderedMap.mem_values_of_get? found)
  | releaseAll _ | takePending => exact asked.elim
  | create _ | add _ | step => trivial

/-- A request that was taken over goes one round of the loop, or none. -/
theorem Underway.called (underway : Underway f s.engine (os ++ s.phase.outputs) name id)
    (named : (s.engine.scheduler.sequence id).requestId = name)
    (alone : ∀ other ∈ s.engine.scheduler.requests.values,
      (s.engine.scheduler.sequence other).requestId = name → other = id)
    (called : Service.Called device c s s') (unharmed : Unharmed id s.session c)
    (regular : s.session.Regular config) (valid : device.Valid) (computes : device.Computes f) :
    Underway f s'.engine (os ++ s'.phase.outputs) name id := by
  have told := Session.perform_told regular valid called.proper
  obtain ⟨regular', onward⟩ := Session.perform_onward regular valid called.proper
  have admitted : s.session.Admitted id := underway.admitted
  obtain ⟨more, log, speakers⟩ := told.speakers
  have heard : (if id ∈ s.session.scheduler.requests.values then
      more.filter (·.requestId = s.session.scheduler.ledger.name id) else []) =
        more.filter (·.requestId = name) := by
    rw [show s.session.scheduler.ledger.name id = name from named]
    split
    · rfl
    · rename_i absent
      refine (List.filter_eq_nil_iff.mpr fun o among => ?_).symm
      obtain ⟨other, member, spoke⟩ := speakers o among
      rw [decide_eq_true_eq]
      exact fun own => absent (alone other member (spoke.trans own) ▸ member)
  have voiced := told.voiced regular admitted log underway.voiced
  have grown : os ++ s'.phase.outputs ++ s'.engine.scheduler.pending =
      os ++ s.phase.outputs ++ s.engine.scheduler.pending ++ more := by
    have log' : s'.phase.outputs ++ s'.engine.scheduler.pending =
        s.phase.outputs ++ s.engine.scheduler.pending ++ more := called.log.trans log
    simpa only [List.append_assoc] using congrArg (os ++ ·) log'
  constructor
  · rw [called.scheduler]
    exact admitted.onward onward
  · rw [called.scheduler]
    exact told.agrees regular admitted (regular'.config.trans regular.config.symm) computes unharmed
      underway.agrees
  · rw [grown, called.scheduler, List.filter_append, ← heard]
    exact voiced

theorem underway_of_added (called : Service.Called device (.add id) s s') (upright : s.Upright config)
    (valid : device.Valid) (waits : id ∈ s.engine.posted)
    (named : (s.engine.scheduler.sequence id).requestId = name)
    (silent : ∀ o ∈ os, o.requestId ≠ name) :
    Underway f s'.engine (os ++ s'.phase.outputs) name id := by
  have regular := upright.standing.regular
  have absent := (upright.standing.fresh id waits).unregistered regular.orderly
  have told := Session.perform_told regular valid called.proper
  let r := s.session.perform device (.add id)
  have member : id ∈ r.scheduler.requests.values := by
    obtain ⟨m, -, same, took, -⟩ := upright.standing.took device waits
    rw [same, took.requests]
    exact List.mem_append_right _ List.mem_cons_self
  obtain ⟨other, call, -, log, -, -, -, going⟩ := (told.taken regular).resolve_left
    fun others => absent (others.2 id member)
  cases call
  have nothing : (os ++ s'.phase.outputs ++ s'.engine.scheduler.pending).filter
      (·.requestId = name) = [] := by
    have log' : s'.phase.outputs ++ s'.engine.scheduler.pending = s.session.log := called.log.trans log
    rw [List.append_assoc, log']
    refine List.filter_eq_nil_iff.mpr fun o among => ?_
    rw [decide_eq_true_eq]
    rcases List.mem_append.mp among with old | among
    · exact silent o old
    · exact fun own => upright.standing.silent id waits o among (own.trans named.symm)
  constructor
  · rw [called.scheduler]
    exact Or.inl member
  · rw [called.scheduler]
    exact (Session.watched_of_joined member going).agrees
  · rw [nothing, called.scheduler, Ledger.Voiced,
      if_pos (show id ∈ r.scheduler.ledger.requests.values from member)]
    exact going

theorem posted_called (called : Service.Called device c s s') (upright : s.Upright config)
    (valid : device.Valid) (waits : id ∈ s.engine.posted)
    (named : (s.engine.scheduler.sequence id).requestId = name)
    (named' : (s'.engine.scheduler.sequence id).requestId = name)
    (silent : ∀ o ∈ os, o.requestId ≠ name) :
    (id ∈ s'.engine.posted ∧ ∀ o ∈ os ++ s'.phase.outputs, o.requestId ≠ name) ∨
      Underway f s'.engine (os ++ s'.phase.outputs) name id := by
  have stays : id ∈ s'.engine.posted →
      id ∈ s'.engine.posted ∧ ∀ o ∈ os ++ s'.phase.outputs, o.requestId ≠ name := by
    refine fun waits' => ⟨waits', fun o among => ?_⟩
    rcases List.mem_append.mp among with old | among
    · exact silent o old
    · have quiet := (called.upright upright valid).1.standing.silent id waits' o
        (List.mem_append_left _ among)
      exact fun own => quiet (own.trans named'.symm)
  rcases called.taking with ⟨first, rfl, posted⟩ | ⟨-, posted⟩
  · rcases List.mem_cons.mp (posted ▸ waits) with rfl | waits'
    · exact Or.inr (underway_of_added called upright valid waits named silent)
    · exact Or.inl (stays waits')
  · exact Or.inl (stays (posted ▸ waits))

theorem Followed.called (followed : Followed f s.engine (os ++ s.phase.outputs) name p id)
    (called : Service.Called device c s s') (upright : s.Upright config) (valid : device.Valid)
    (computes : device.Computes f) : Followed f s'.engine (os ++ s'.phase.outputs) name p id := by
  have regular := upright.standing.regular
  have told := Session.perform_told regular valid called.proper
  have origin : ∀ {other}, s.engine.scheduler.cache.Knows other →
      (s'.engine.scheduler.sequence other).origin = (s.engine.scheduler.sequence other).origin := by
    intro other knows
    rw [called.scheduler]
    exact (told.origin knows).2
  have inquiry := (Sequence.inquiry_of_origin (origin (followed.knows upright))).trans followed.inquiry
  have upheld := called.upheld upright valid
  constructor
  case inquiry => exact inquiry
  case alone =>
    intro other among own
    have before : other ∈ s.session.enlisted s.engine.posted := by
      refine upheld.enlisted other ?_
      rw [called.scheduler] at among
      exact among
    have same := congrArg Origin.requestId (origin (upright.standing.knows before))
    exact followed.alone other before (same.symm.trans own)
  case spared => exact fun rest cancelled => followed.spared rest (cancelled.trans called.onward)
  case course =>
    rcases followed.course with ⟨waits, silent⟩ | underway
    · have before : ∀ o ∈ os, o.requestId ≠ name := fun o among =>
        silent o (List.mem_append_left _ among)
      exact posted_called called upright valid waits followed.named (congrArg Prod.fst inquiry) before
    · have unharmed := followed.unharmed upright called.asked
      have alone : ∀ other ∈ s.engine.scheduler.requests.values,
          (s.engine.scheduler.sequence other).requestId = name → other = id := fun other member =>
        followed.alone other (List.mem_append_right _ member)
      exact Or.inr (underway.called followed.named alone called unharmed regular valid computes)

theorem Followed.comes (comes : Service.Comes config device s s') (valid : device.Valid)
    (computes : device.Computes f) (followed : Followed f s.engine (os ++ s.phase.outputs) name p id) :
    Followed f s'.engine (os ++ s'.phase.outputs) name p id := by
  induction comes with
  | refl => exact followed
  | call upright called _ ih => exact ih (followed.called called upright valid computes)

end Called

end Engine

namespace Service

open Engine (Followed)

variable {s : Service ω} {host : Host ω} {ids : List SeqId} {n : Nat}

theorem Upright.follows (upright : s.Upright config) (calm : host.Calm) (valid : host.device.Valid)
    (computes : host.device.Computes f) (idle : s.phase = .idle) (nearing : s.Nearing ids (n + 1)) :
    ∃ m result, let s' := s.ticks host m
      s'.Upright config ∧ s'.phase = .idle ∧ s'.Nearing ids n ∧
        Engine.step host s.engine = .ok result s'.engine ∧
        ∀ {outputs name p id}, Followed f s.engine outputs name p id →
          Followed f s'.engine (outputs ++ result.outputs) name p id := by
  obtain ⟨m, upright', idle', -, nearing', result, step⟩ := upright.nearer calm valid idle nearing
  refine ⟨m, result, upright', idle', nearing', step, fun {outputs name p id} followed => ?_⟩
  -- The same iteration, one action of the loop after the other.
  let s₁ : Service ω := { s with phase := .draining [] }
  have begins : Ticked host s s₁ [] := .begins idle rfl
  obtain ⟨upright₁, -⟩ := begins.upright upright valid
  obtain ⟨k, upright₂, phase₂, commands₂, drained, -, -, comes⟩ := upright₁.drains valid rfl
  obtain ⟨lost, ticked⟩ := upright₂.ticks valid
  obtain ⟨⟨c, called⟩, -⟩ := ticked.called upright₂ phase₂
  have followed₁ : Followed f s₁.engine (outputs ++ s₁.phase.outputs) name p id := by
    rwa [show s₁.phase.outputs = [] from rfl, List.append_nil]
  have followed₃ := (followed₁.comes comes valid computes).called called upright₂ valid computes
  cases ticked with
  | @iterates answer d _ _ run same =>
      obtain ⟨gathered, scheduler, commands⟩ := Engine.step_run_inv drained run step
      rw [same, Phase.outputs_toward, ← gathered] at followed₃
      exact followed₃.congr scheduler commands
  | adds _ commands _ _ | cancels _ commands _ _ => simp [commands₂] at commands
  | begins other _ | gives other _ | announces other _ | forgets other _ => simp [phase₂] at other
  | fails _ calling _ _ => exact absurd ⟨[], phase₂⟩ calling

end Service

end PagedServing
