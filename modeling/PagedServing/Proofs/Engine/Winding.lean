import PagedServing.Engine.Lifecycle
import PagedServing.Proofs.Engine.Iterating

/-! # Winding down

If clients post nothing more and callbacks do not fail any more, then iterations end all requests,
after no more of them than a drain has patience for. Only stranded names stay in flight, and then a
drain does not come to its end.
-/

namespace PagedServing

open Scheduler (Session)
open Scheduler.Session (Claimed)

variable {ω : Type} {host : Host ω}

namespace Engine

/-- Iterations one after the other. -/
def steps (host : Host ω) : Nat → Action (Engine ω) Unit
  | 0 => return
  | n + 1 => do
    let _ ← step host
    steps host n

theorem patience_eq (e : Engine ω) : (e.patience : Int) =
    total ((e.scheduler.requests.values ++ e.posted).map fun id =>
      ((e.scheduler.sequence id).sampling.maxTokens : Int) + 1) + 1 := by
  have folded : ∀ (ids : List SeqId) (n : Nat),
      ((ids.foldl (fun n id => n + (e.scheduler.sequence id).sampling.maxTokens + 1) n : Nat) : Int) =
        total (ids.map fun id => ((e.scheduler.sequence id).sampling.maxTokens : Int) + 1) + n := by
    intro ids
    induction ids with
    | nil => exact fun n => (Int.zero_add _).symm
    | cons id rest ih =>
        intro n
        rw [List.foldl_cons, ih, List.map_cons, total_cons]
        push_cast
        omega
  exact folded _ 1

section StepWhileWork

variable {e e' : Engine ω} {result : StepResult}

theorem stepWhileWork_of_rest (rests : e.hasWork = false) (n : Nat) :
    stepWhileWork host n e = .ok () e := by
  cases n <;>
    simp only [stepWhileWork, bind, EStateM.bind, Action.run_get, rests,
      Action.require] <;> rfl

theorem stepWhileWork_of_work (works : e.hasWork = true) (ran : step host e = .ok result e') (n : Nat) :
    stepWhileWork host (n + 1) e = stepWhileWork host n e' := by
  simp only [stepWhileWork, bind, EStateM.bind, Action.run_get, works, ran,
    if_true]

theorem stepWhileWork_stalled (works : e.hasWork = true) :
    stepWhileWork host 0 e = .error .stalled e := by
  simp only [stepWhileWork, bind, EStateM.bind, Action.run_get, works,
    Action.require]
  rfl

theorem drain_of_absent (unfailed : e.loopFailed = false) (absent : e.loop = .absent)
    (timeout : Option Number) : drain host timeout e =
      (stepWhileWork host e.patience >>= fun _ => pure true) e := by
  simp only [drain, bind, EStateM.bind, Action.run_get, unfailed,
    isRunning, absent, Loop.isAlive]
  rfl

end StepWhileWork

end Engine

namespace Service

variable {config : Config} {s s' : Service ω} {ids : List SeqId} {n : Nat}

/-- Nothing is posted, and no request is left. -/
structure Wound (s : Service ω) : Prop where
  commands : s.engine.commands = []
  requests : s.engine.scheduler.requests.values = []

theorem Wound.enlisted (wound : s.Wound) : s.session.enlisted s.engine.posted = [] := by
  have posted : s.engine.posted = [] := by simp [Engine.posted, wound.commands]
  rw [Session.enlisted, posted]
  exact wound.requests

theorem Upright.log_of_idle (upright : s.Upright config) (idle : s.phase = .idle) :
    s.session.log = [] := by
  have pending := upright.settled (by simp [Draining, idle])
  rw [Session.log]
  show s.phase.outputs ++ s.engine.scheduler.pending = []
  rw [idle, pending]
  rfl

theorem Wound.stranded (wound : s.Wound) (upright : s.Upright config) (idle : s.phase = .idle)
    (name : String) : s.Stranded name ↔ name ∈ s.engine.live := by
  have log := upright.log_of_idle idle
  have nobody : ¬ Claimed s.session s.engine.posted name := by
    rw [Claimed, wound.enlisted, log]
    simp
  exact and_iff_left nobody

theorem Upright.wound (upright : s.Upright config) (rests : s.engine.hasWork = false) : s.Wound := by
  simp only [Engine.hasWork, Bool.or_eq_false_iff, Bool.not_eq_false', List.isEmpty_iff] at rests
  refine ⟨rests.2, List.eq_nil_iff_forall_not_mem.mpr fun id member => ?_⟩
  have flies := upright.standing.flying id (List.mem_append_right s.engine.posted member)
  rw [rests.1] at flies
  cases flies

theorem Wound.hasWork (wound : s.Wound) : s.engine.hasWork = false ↔ s.engine.live = [] := by
  simp [Engine.hasWork, wound.commands]

/-- What is left to do for some sequences is done after so many iterations. -/
def Nearing (s : Service ω) (ids : List SeqId) (n : Nat) : Prop :=
  (∀ id, 0 < s.due id → id ∈ ids) ∧ (s.Wound ∨ total (ids.map s.due) < n)

theorem Upright.nearing (upright : s.Upright config) :
    s.Nearing (s.engine.scheduler.requests.values ++ s.engine.posted) s.engine.patience := by
  constructor
  · intro id some
    have enlisted := (upright.due_pos id).mp some
    rw [Session.enlisted, List.mem_append] at enlisted
    exact List.mem_append.mpr enlisted.symm
  · right
    rw [Engine.patience_eq]
    refine Int.lt_add_one_of_le (total_map_le fun id _ => ?_)
    rw [due, Scheduler.due]
    split
    · exact Int.le_refl _
    · split
      · rw [Scheduler.rest]
        omega
      · omega

theorem Nearing.mono {m : Nat} (nearing : s.Nearing ids n) (more : n ≤ m) : s.Nearing ids m :=
  ⟨nearing.1, nearing.2.imp_right fun less => less.trans_le (Int.ofNat_le.mpr more)⟩

theorem Upright.steps (upright : s.Upright config) (calm : host.Calm) (valid : host.device.Valid)
    (idle : s.phase = .idle) (n : Nat) :
    ∃ m, let s' := s.ticks host m
      s'.Upright config ∧ (∀ name, s'.Stranded name ↔ s.Stranded name) ∧
        Engine.steps host n s.engine = .ok () s'.engine := by
  induction n generalizing s with
  | zero => exact ⟨0, upright, fun _ => Iff.rfl, rfl⟩
  | succ n ih =>
      obtain ⟨m, iterated⟩ := upright.iterated valid idle
      obtain ⟨⟨result, step⟩, stranded⟩ := iterated.outcome.resolve_right fun failed => failed.1 calm
      obtain ⟨k, upright', stranded', steps⟩ := ih iterated.upright iterated.phase
      refine ⟨m + k, ?_⟩
      rw [ticks_add]
      refine ⟨upright', fun name => (stranded' name).trans (stranded name), ?_⟩
      simp only [Engine.steps, bind, EStateM.bind, step]
      exact steps

theorem Iterated.nearing {e : Engine ω} (iterated : Iterated config host e s s')
    (upright : s.Upright config) (nearing : s.Nearing ids (n + 1)) : s'.Nearing ids n := by
  obtain ⟨upright', -, commands, due, less, -⟩ := iterated
  refine ⟨fun id some => nearing.1 id (some.trans_le (due id)), ?_⟩
  rcases less with none | ⟨id, less⟩
  · exact Or.inl ⟨commands, none⟩
  · right
    have some : 0 < s.due id := (upright'.due_nonneg id).trans_lt less
    have lighter := total_map_lt (fun other _ => due other) (nearing.1 id some) less
    have before : total (ids.map s.due) < n + 1 := by
      rcases nearing.2 with wound | before
      · have enlisted := (upright.due_pos id).mp some
        rw [wound.enlisted] at enlisted
        cases enlisted
      · exact before
    omega

theorem Iterated.wound {e : Engine ω} (iterated : Iterated config host e s s')
    (upright : s.Upright config) (wound : s.Wound) : s'.Wound := by
  refine ⟨iterated.commands, List.eq_nil_iff_forall_not_mem.mpr fun id member => ?_⟩
  have some : 0 < s.due id :=
    ((iterated.upright.due_pos id).mpr (List.mem_append_right _ member)).trans_le (iterated.due id)
  have enlisted := (upright.due_pos id).mp some
  rw [wound.enlisted] at enlisted
  cases enlisted

theorem Nearing.wound (nearing : s.Nearing ids 0) (upright : s.Upright config) : s.Wound := by
  rcases nearing.2 with wound | less
  · exact wound
  · have natural : 0 ≤ total (ids.map s.due) := total_map_nonneg fun id _ => upright.due_nonneg id
    omega

theorem Upright.nearer (upright : s.Upright config) (calm : host.Calm) (valid : host.device.Valid)
    (idle : s.phase = .idle) (nearing : s.Nearing ids (n + 1)) :
    ∃ m, let s' := s.ticks host m
      s'.Upright config ∧ s'.phase = .idle ∧ (∀ name, s'.Stranded name ↔ s.Stranded name) ∧
        s'.Nearing ids n ∧ ∃ result, Engine.step host s.engine = .ok result s'.engine := by
  obtain ⟨m, iterated⟩ := upright.iterated valid idle
  obtain ⟨step, stranded⟩ := iterated.outcome.resolve_right fun failed => failed.1 calm
  exact ⟨m, iterated.upright, iterated.phase, stranded, iterated.nearing upright nearing, step⟩

theorem Upright.winds (upright : s.Upright config) (calm : host.Calm) (valid : host.device.Valid)
    (idle : s.phase = .idle) (nearing : s.Nearing ids n) :
    ∃ m, let s' := s.ticks host m
      s'.Upright config ∧ s'.phase = .idle ∧ (∀ name, s'.Stranded name ↔ s.Stranded name) ∧
        s'.Wound ∧ Engine.steps host n s.engine = .ok () s'.engine := by
  induction n generalizing s with
  | zero => exact ⟨0, upright, idle, fun _ => Iff.rfl, nearing.wound upright, rfl⟩
  | succ n ih =>
      obtain ⟨m, upright', idle', stranded, nearing', result, step⟩ :=
        upright.nearer calm valid idle nearing
      obtain ⟨k, upright'', idle'', stranded', wound, steps⟩ := ih upright' idle' nearing'
      refine ⟨m + k, ?_⟩
      rw [ticks_add]
      refine ⟨upright'', idle'', fun name => (stranded' name).trans (stranded name), wound, ?_⟩
      simp only [Engine.steps, bind, EStateM.bind, step]
      exact steps

/-- If no name is stranded, then iterations are run until there is nothing more to do. -/
theorem Upright.works (upright : s.Upright config) (calm : host.Calm) (valid : host.device.Valid)
    (idle : s.phase = .idle) (nearing : s.Nearing ids n) (saved : ∀ name, ¬ s.Stranded name) :
    ∃ m, let s' := s.ticks host m
      s'.Upright config ∧ s'.phase = .idle ∧ s'.engine.hasWork = false ∧
        Engine.stepWhileWork host n s.engine = .ok () s'.engine := by
  induction n generalizing s with
  | zero =>
      obtain ⟨m, upright', idle', stranded, wound, steps⟩ := upright.winds calm valid idle nearing
      have none : (s.ticks host m).engine.live = [] := List.eq_nil_iff_forall_not_mem.mpr fun name flies =>
        saved name ((stranded name).mp ((wound.stranded upright' idle' name).mpr flies))
      have rests := wound.hasWork.mpr none
      have same : s.engine = (s.ticks host m).engine := (EStateM.Result.ok.inj steps).2
      exact ⟨m, upright', idle', rests, same ▸ Engine.stepWhileWork_of_rest (same ▸ rests) 0⟩
  | succ n ih =>
      cases works : s.engine.hasWork with
      | false => exact ⟨0, upright, idle, works, Engine.stepWhileWork_of_rest works (n + 1)⟩
      | true =>
          obtain ⟨m, upright', idle', stranded, nearing', result, step⟩ :=
            upright.nearer calm valid idle nearing
          obtain ⟨k, upright'', idle'', rests, worked⟩ :=
            ih upright' idle' nearing' fun name => (stranded name).not.mpr (saved name)
          refine ⟨m + k, ?_⟩
          rw [ticks_add]
          exact ⟨upright'', idle'', rests, (Engine.stepWhileWork_of_work works step n).trans worked⟩

/-- If a name is stranded, then there is something to do however many iterations are run. -/
theorem Upright.stalls (upright : s.Upright config) (calm : host.Calm) (valid : host.device.Valid)
    (idle : s.phase = .idle) {name : String} (stranded : s.Stranded name) (n : Nat) :
    ∃ e, Engine.stepWhileWork host n s.engine = .error .stalled e := by
  have works : ∀ {s : Service ω}, s.Stranded name → s.engine.hasWork = true := by
    intro s stranded
    cases live : s.engine.live with
    | nil =>
        have flies := stranded.1
        rw [live] at flies
        cases flies
    | cons _ _ => simp [Engine.hasWork, live]
  induction n generalizing s with
  | zero => exact ⟨_, Engine.stepWhileWork_stalled (works stranded)⟩
  | succ n ih =>
      obtain ⟨m, iterated⟩ := upright.iterated valid idle
      obtain ⟨⟨result, step⟩, same⟩ := iterated.outcome.resolve_right fun failed => failed.1 calm
      obtain ⟨e, stalled⟩ := ih iterated.upright iterated.phase ((same name).mpr stranded)
      exact ⟨e, (Engine.stepWhileWork_of_work (works stranded) step n).trans stalled⟩

/-- If no name is stranded, then the engine can be drained. -/
theorem Upright.drained (upright : s.Upright config) (calm : host.Calm) (valid : host.device.Valid)
    (idle : s.phase = .idle) (saved : ∀ name, ¬ s.Stranded name) :
    ∃ m, let s' := s.ticks host m
      s'.Upright config ∧ s'.phase = .idle ∧ s'.engine.hasWork = false ∧
        ∀ timeout, Engine.drain host timeout s.engine = .ok true s'.engine := by
  obtain ⟨m, upright', idle', rests, worked⟩ :=
    upright.works calm valid idle upright.nearing saved
  refine ⟨m, upright', idle', rests, fun timeout => ?_⟩
  rw [Engine.drain_of_absent upright.unfailed upright.absent]
  simp only [bind, EStateM.bind, worked]
  rfl

theorem Upright.undrained (upright : s.Upright config) (calm : host.Calm)
    (valid : host.device.Valid) (idle : s.phase = .idle) {name : String} (stranded : s.Stranded name)
    (timeout : Option Number) : ∃ e, Engine.drain host timeout s.engine = .error .stalled e := by
  obtain ⟨e, stalled⟩ := upright.stalls calm valid idle stranded s.engine.patience
  refine ⟨e, ?_⟩
  rw [Engine.drain_of_absent upright.unfailed upright.absent]
  simp only [bind, EStateM.bind, stalled]

end Service

end PagedServing
