import PagedServing.Engine.Lifecycle
import PagedServing.Engine.Offline
import PagedServing.Proofs.Yields

/-! # What the actions of an engine leave alone

Whether an engine takes requests and whether it is closed is decided by a shutdown only. Its host is
acted on by executions and by callbacks, and by the shutdown that gives up the device.
-/

namespace PagedServing

open PagedServing.Action (Preserves)

variable {ω : Type} {host : Host ω}

/-- What a host comes to by an execution or by a call of a callback. -/
inductive Host.Acts (host : Host ω) (w : ω) : ω → Prop where
  | executes (batch : Batch) (sequences : List Sequence) :
      Acts host w (host.device.execute batch sequences w).2
  | hands {callback : String → List Int → Callback ω} (given : host.onTokens = some callback)
      (requestId : String) (tokens : List Int) : Acts host w (callback requestId tokens w).2
  | tells {callback : String → FinishReason → Callback ω} (given : host.onEnd = some callback)
      (requestId : String) (reason : FinishReason) : Acts host w (callback requestId reason w).2

/-- What holds of an engine, by whether it takes requests, whether it is closed, and its host, is not
    spoilt by what the host does. -/
def Host.Spares (host : Host ω) (p : Bool → Bool → ω → Prop) : Prop :=
  ∀ accepting closed w w', host.Acts w w' → p accepting closed w → p accepting closed w'

namespace Engine

/-- Something holds of whether an engine takes requests, of whether it is closed, and of its host. -/
def Shows (p : Bool → Bool → ω → Prop) (e : Engine ω) : Prop :=
  p e.accepting e.closed e.host

section Preserves

variable {p : Bool → Bool → ω → Prop}

theorem onScheduler_preserves {α : Type} (act : Action Scheduler α) :
    (onScheduler act).Preserves (Shows p) :=
  .elsewhere fun _ _ holds => holds

theorem apply_preserves (c : Command) : (apply c : Action (Engine ω) _).Preserves (Shows p) := by
  cases c with
  | add id =>
      refine .bind .get fun e => .bind (.tryCatch ((onScheduler_preserves _).bind fun _ => .pure _)
        fun _ => .pure _) fun result => ?_
      cases result <;> exact .pure _
  | cancel requestId => exact (onScheduler_preserves _).bind fun _ => .pure _

theorem applyCommands_preserves : (applyCommands : Action (Engine ω) _).Preserves (Shows p) := by
  have next : (applyNext : Action (Engine ω) _).Preserves (Shows p) := .bind .get fun e => by
    split
    · exact .pure _
    · exact .bind (.modify fun _ holds => holds) fun _ => apply_preserves _
  have many : ∀ n, (applyMany n : Action (Engine ω) _).Preserves (Shows p) := by
    intro n
    induction n with
    | zero => exact .pure _
    | succ n ih => exact next.bind fun _ => ih.bind fun _ => .pure _
  exact .bind .get fun e => many _

theorem commence_preserves : (commence : Action (Engine ω) _).Preserves (Shows p) :=
  applyCommands_preserves.bind fun _ => (onScheduler_preserves _).bind fun _ => .pure _

theorem releaseAll_preserves : (releaseAll : Action (Engine ω) _).Preserves (Shows p) :=
  applyCommands_preserves.bind fun _ => (onScheduler_preserves _).bind fun _ =>
    (onScheduler_preserves _).bind fun _ => .bind (.modify fun _ holds => holds) fun _ => .pure _

theorem cancel_preserves (requestId : String) :
    (cancel requestId : Action (Engine ω) _).Preserves (Shows p) :=
  .modify fun _ holds => holds

theorem newRequest_preserves (prompt : List Int) (sampling : Sampling) (requestId : Option String) :
    (newRequest prompt sampling requestId : Action (Engine ω) _).Preserves (Shows p) := by
  have checked : ∀ id, (checkCapacity id : Action (Engine ω) _).Preserves (Shows p) := by
    intro id
    refine .bind .get fun e => ?_
    dsimp only
    split
    · exact .pure _
    · exact (onScheduler_preserves _).bind fun _ => .throw _
  have accepted : ∀ id, (accept id : Action (Engine ω) _).Preserves (Shows p) := fun id =>
    .bind .get fun e => (Preserves.require _ _).bind fun _ => (Preserves.require _ _).bind fun _ =>
      (checked id).bind fun _ => .bind (.modify fun _ holds => holds) fun _ =>
        .bind (.modify fun _ holds => holds) fun _ => .pure _
  exact .bind .get fun _ => (onScheduler_preserves _).bind accepted

theorem newRequests_preserves (requests : List (List Int × Sampling)) :
    (newRequests requests : Action (Engine ω) _).Preserves (Shows p) := by
  induction requests with
  | nil => exact .pure _
  | cons request rest ih =>
      exact (newRequest_preserves _ _ _).bind fun _ => ih.bind fun _ => .pure _

/-- A delivery changes nothing but the host and the names in flight. -/
theorem deliver_changes {q : Engine ω → Prop}
    (acts : ∀ e w, host.Acts e.host w → q e → q { e with host := w })
    (forgets : ∀ (e : Engine ω) live, q e → q { e with live }) (outputs : List Output) :
    (deliver host outputs).Preserves q := by
  have called : ∀ callback : Callback ω, (∀ w, host.Acts w (callback w).2) →
      (call callback).Preserves q := by
    intro callback does e holds
    have kept := acts e (callback e.host).2 (does e.host) holds
    cases ran : callback e.host with
    | mk result w =>
        rw [ran] at kept
        cases result <;> simp only [Action.Yields, call, ran] <;> exact kept
  have one : ∀ o, (deliverOne host o).Preserves q := by
    intro o
    refine .bind ?_ fun _ => ?_
    · unfold giveTokens
      cases given : host.onTokens with
      | none => exact .pure _
      | some callback => exact .ite (.pure _) (called _ fun w => .hands given _ _)
    · cases o.reason with
      | none => exact .pure _
      | some reason =>
          refine .bind ?_ fun _ => .modify fun e holds => forgets e _ holds
          unfold announceEnd
          cases given : host.onEnd with
          | none => exact .pure _
          | some callback => exact called _ fun w => .tells given _ _
  induction outputs with
  | nil => exact .pure _
  | cons o rest ih => exact (one o).bind fun _ => ih

section Host

variable (safe : host.Spares p)
include safe

theorem deliver_preserves (outputs : List Output) : (deliver host outputs).Preserves (Shows p) :=
  deliver_changes (fun e _ => safe e.accepting e.closed e.host _) (fun _ _ holds => holds) outputs

theorem complete_preserves (u : Underway) : (complete host u).Preserves (Shows p) := by
  have driven : (onDriven (Scheduler.Driven.complete host.device u.prepared)).Preserves (Shows p) := by
    intro e holds
    have executed : (Scheduler.Driven.complete host.device u.prepared).Preserves
        fun d => p e.accepting e.closed d.device :=
      .ite (.bind (fun d holds => safe _ _ _ _ (.executes _ _) holds) fun _ =>
          .elsewhere fun _ _ holds => holds)
        (.elsewhere fun _ _ holds => holds)
    exact Action.yields_within.mpr (executed ⟨e.scheduler, e.host⟩ holds)
  exact driven.bind fun _ => .bind (.modify fun _ holds => holds) fun _ =>
    (deliver_preserves safe _).bind fun _ => .pure _

theorem step_preserves : (step host).Preserves (Shows p) :=
  commence_preserves.bind fun _ => complete_preserves safe _

theorem stepWhileWork_preserves (n : Nat) : (stepWhileWork host n).Preserves (Shows p) := by
  induction n with
  | zero => exact .bind .get fun _ => .require _ _
  | succ n ih => exact .bind .get fun _ => .ite ((step_preserves safe).bind fun _ => ih) (.pure _)

theorem drain_preserves (timeout : Option Number) : (drain host timeout).Preserves (Shows p) :=
  .bind .get fun _ => .ite (.throw _) <| .ite ((stepWhileWork_preserves safe _).bind fun _ => .pure _) <|
    .ite (.pure _) <| .ite (.pure _) (.throw _)

theorem move_preserves : (move host).Preserves (Shows p) := by
  refine .bind .get fun e => ?_
  split
  · exact commence_preserves.bind fun _ => .modify fun _ holds => holds
  · exact (complete_preserves safe _).bind fun _ => .modify fun _ holds => holds
  · exact .pure _
  · exact .pure _

theorem turn_preserves : (turn host).Preserves (Shows p) :=
  (move_preserves safe).tryCatch fun _ => (onScheduler_preserves _).bind fun _ =>
    .bind (.modify fun _ holds => holds) fun _ => onScheduler_preserves _

theorem advance_preserves : (advance host).Preserves (Shows p) := by
  have turning : ∀ n, (turns host n).Preserves (Shows p) := by
    intro n
    induction n with
    | zero => exact .pure _
    | succ n ih => exact .bind .get fun _ => .ite ((turn_preserves safe).bind fun _ => ih) (.pure _)
  exact .bind .get fun _ => turning _

theorem start_preserves : (start host).Preserves (Shows p) :=
  .bind .get fun _ => (Preserves.require _ _).bind fun _ => .ite
    ((onScheduler_preserves _).bind fun _ => .bind (.modify fun _ holds => holds) fun _ =>
      advance_preserves safe) (.pure _)

theorem stop_preserves : (stop host).Preserves (Shows p) := by
  have leaves : ((do
      if (← get).isRunning then report .info "Scheduling loop stopped"
      modify fun e => { e with loop := .absent }) : Action (Engine ω) Unit).Preserves (Shows p) :=
    .bind .get fun _ => .ite ((onScheduler_preserves _).bind fun _ => .modify fun _ holds => holds)
      (.modify fun _ holds => holds)
  refine .bind .get fun e => ?_
  split
  · exact (turn_preserves safe).bind fun _ => leaves
  · exact leaves

theorem alongside_preserves {α : Type} {act : Action (Engine ω) α} (preserves : act.Preserves (Shows p)) :
    (alongside host act).Preserves (Shows p) :=
  preserves.bind fun _ => (advance_preserves safe).bind fun _ => .pure _

theorem cancelEach_preserves (names : List String) : (cancelEach host names).Preserves (Shows p) := by
  induction names with
  | nil => exact .pure _
  | cons name rest ih =>
      exact .bind (alongside_preserves safe (.modify fun _ holds => holds)) fun _ => ih

theorem drainOrCancel_preserves (timeout : Option Number) :
    (drainOrCancel host timeout).Preserves (Shows p) :=
  (drain_preserves safe _).bind fun _ => .ite (.bind .get fun _ => (onScheduler_preserves _).bind fun _ =>
    (cancelEach_preserves safe _).bind fun _ => (drain_preserves safe _).bind fun _ => .pure _) (.pure _)

theorem windDown_preserves (cancelRunning : Bool) (timeout : Option Number) :
    (windDown host cancelRunning timeout).Preserves (Shows p) := by
  have waits : (windDown host false timeout).Preserves (Shows p) :=
    .tryCatch ((drainOrCancel_preserves safe timeout).bind fun _ => .pure _) fun fault =>
      (Preserves.require _ _).bind fun _ => (onScheduler_preserves _).bind fun _ => .pure _
  cases cancelRunning with
  | false => exact waits
  | true => exact .bind .get fun e => (cancelEach_preserves safe _).bind fun _ => waits

theorem deliverLast_preserves (failure : Option Fault) (outputs : List Output) :
    (deliverLast host failure outputs).Preserves (Shows p) :=
  .ite (deliver_preserves safe _) (.modify fun _ holds => holds)

theorem generate_preserves (prompts : List (List Int)) (plan : SamplingPlan) :
    (generate host prompts plan).Preserves (Shows p) := by
  have gathering : ∀ requestIds n outputs, (gather host requestIds n outputs).Preserves (Shows p) := by
    intro requestIds n
    induction n with
    | zero => exact fun outputs => .demand _ _
    | succ n ih =>
        intro outputs
        rw [gather]
        split
        · exact .pure _
        · exact (step_preserves safe).bind fun _ => ih _
  exact .bind .get fun _ => (Preserves.require _ _).bind fun _ => (Preserves.ofExcept _).bind fun _ =>
    (newRequests_preserves _).bind fun _ => .bind .get fun _ => gathering _ _ _

/-- A shutdown may do more: it closes the engine and gives up the device, and no requests are taken. -/
theorem shutdown_preserves (refuses : ∀ accepting closed w, p accepting closed w → p false closed w)
    (closes : ∀ accepting closed w, p accepting closed w → p accepting true (host.shutdown w))
    (cancelRunning : Bool) (timeout : Option Number) :
    (shutdown host cancelRunning timeout).Preserves (Shows p) := by
  have closing : (close host).Preserves (Shows p) := .modify fun _ holds => closes _ _ _ holds
  have delivering : ∀ failure outputs,
      (thenClose host (deliverLast host failure outputs)).Preserves (Shows p) :=
    fun failure outputs => ((deliverLast_preserves safe failure outputs).tryCatch fun _ =>
      closing.bind fun _ => .throw _).bind fun _ => closing
  have checking : (checkReleased : Action (Engine ω) _).Preserves (Shows p) :=
    .bind .get fun _ => .require _ _
  refine .bind .get fun _ => .ite (.pure _) <| .bind (.modify fun _ holds => refuses _ _ _ holds) fun _ =>
    .bind .get fun _ => (onScheduler_preserves _).bind fun _ => (windDown_preserves safe _ _).bind fun _ =>
      (stop_preserves safe).bind fun _ => releaseAll_preserves.bind fun _ =>
        (delivering _ _).bind fun _ => checking.bind fun _ => (onScheduler_preserves _).bind fun _ => ?_
  split
  · exact .throw _
  · exact .pure _

end Host

end Preserves

end Engine

end PagedServing
