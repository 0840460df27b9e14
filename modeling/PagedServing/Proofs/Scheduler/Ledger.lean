import PagedServing.Proofs.Cache.Transcripts
import PagedServing.Proofs.Scheduler.Schedule
import PagedServing.Scheduler.Iteration

/-! # The ledger

The ledger of a scheduler is what its callers can tell of it: the transcripts, the requests and
the outputs that nobody took yet. Planning leaves it as it is. Ending a sequence and committing
its sample are turns of that sequence, and each turn shows in one output.
-/

namespace PagedServing

/-- What the callers of a scheduler can tell of it. -/
@[ext]
structure Ledger where
  config : Config
  /-- The number of sequences that were constructed. -/
  count : Nat
  transcript : SeqId → Transcript
  requests : OrderedMap String SeqId
  pending : List Output

/-- One turn of a sequence: the tokens that it gets, and why it ends, if it does. -/
structure Turn where
  id : SeqId
  tokens : List Int := []
  ending : Option FinishReason := none
  error : Option String := none

namespace Ledger

/-- The name of a sequence. -/
def name (l : Ledger) (id : SeqId) : String :=
  (l.transcript id).origin.requestId

/-- The transcript of a sequence in its turn, before anything is handed over. -/
def drafted (l : Ledger) (turn : Turn) : Transcript :=
  { l.transcript turn.id with
    completion := (l.transcript turn.id).completion ++ turn.tokens
    reason := turn.ending.or (l.transcript turn.id).reason }

/-- The output that a turn shows in: all that was not handed over yet, and how it ends. -/
def output (l : Ledger) (turn : Turn) : Output where
  requestId := l.name turn.id
  tokens := (l.drafted turn).fresh
  reason := turn.ending
  error := turn.error

/-- The ledger after a turn. A sequence that ends is no request any more. -/
def after (l : Ledger) (turn : Turn) : Ledger :=
  { l with
    transcript := Function.update l.transcript turn.id (l.drafted turn).delivered
    requests := if turn.ending.isSome then l.requests.erase (l.name turn.id) else l.requests }

end Ledger

/-- Turns were taken one after the other, and each shows in its output. -/
inductive Heard : Ledger → List Turn → List Output → Ledger → Prop where
  | nil (l : Ledger) : Heard l [] [] l
  | cons {l l' : Ledger} {turn : Turn} {turns : List Turn} {outputs : List Output}
      (rest : Heard (l.after turn) turns outputs l') :
      Heard l (turn :: turns) (l.output turn :: outputs) l'

namespace Scheduler

variable {s : Scheduler} {id : SeqId}

/-- The ledger of a scheduler. -/
def ledger (s : Scheduler) : Ledger where
  config := s.config
  count := s.cache.transcripts.1
  transcript := s.cache.transcripts.2
  requests := s.requests
  pending := s.pending

theorem onCache_keeps {α : Type} {act : Action Cache α} (keeps : act.Keeps Cache.transcripts) :
    (onCache act).Keeps ledger :=
  keeps.within fun s c same => by simp [ledger, same]

theorem edit_keeps {f : Sequence → Sequence} (same : ∀ q, (f q).transcript = q.transcript) :
    (edit id f).Keeps ledger :=
  onCache_keeps (Cache.edit_keeps same)

theorem look_keeps (id : SeqId) : (look id).Keeps ledger :=
  onCache_keeps (Cache.look_keeps id)

theorem report_keeps (severity : Logging.Severity) (message : String) :
    (report severity message).Keeps ledger :=
  onCache_keeps (Cache.report_keeps severity source message)

theorem evict_keeps (id : SeqId) : (evict id).Keeps ledger := by
  refine .bind .get fun s => .ite (.bind (onCache_keeps (Cache.swapOut_keeps id)) fun _ => .pure _) ?_
  exact .bind (onCache_keeps (Cache.release_keeps id)) fun _ =>
    .bind (edit_keeps fun _ => rfl) fun _ => .pure _

theorem preempt_keeps (id : SeqId) : (preempt id).Keeps ledger :=
  .bind (edit_keeps fun _ => rfl) fun _ => .bind (.modify fun _ => rfl) fun _ =>
    .bind (evict_keeps id) fun _ => .bind (edit_keeps fun _ => rfl) fun _ =>
    .bind (.modify fun _ => rfl) fun _ => .bind .get fun _ => .bind (report_keeps _ _) fun _ => .pure _

theorem reserve_keeps (ids : List SeqId) : ∀ moves, (reserve moves ids).Keeps ledger := by
  induction ids with
  | nil => exact fun moves => .pure moves
  | cons latest others ih =>
      refine fun moves => .get_bind fun s => ?_
      split
      · exact Action.ensures_pure.mpr rfl
      · refine Action.ensures_bind.mpr (Action.ensures_set.mpr ?_)
        exact Action.Keeps.bind (preempt_keeps latest) (fun _ => ih _) _

theorem restore_keeps (id : SeqId) : (restore id).Keeps ledger :=
  .bind .get fun _ => .ite (onCache_keeps (Cache.swapIn_keeps id)) <|
    .bind (onCache_keeps (Cache.allocate_keeps id)) fun _ => .pure _

theorem startRunning_keeps (plan : Plan) (id : SeqId) : (startRunning plan id).Keeps ledger :=
  .bind (edit_keeps fun _ => rfl) fun _ => .bind (.modify fun _ => rfl) fun _ =>
    .bind .get fun _ => .pure _

theorem readmit_keeps (ids : List SeqId) : ∀ plan, ( readmit plan ids).Keeps ledger := by
  induction ids with
  | nil => exact fun plan => .pure plan
  | cons id rest ih =>
      refine fun plan => .get_bind fun s => ?_
      split
      · exact Action.ensures_pure.mpr rfl
      · refine Action.ensures_bind.mpr (Action.ensures_set.mpr ?_)
        exact Action.Keeps.bind (restore_keeps id) (fun _ => .bind (startRunning_keeps _ id) fun _ =>
          .bind (look_keeps id) fun _ => .bind (report_keeps _ _) fun _ => ih _) _

theorem admitWaiting_keeps (ids : List SeqId) : ∀ plan, (admitWaiting plan ids).Keeps ledger := by
  induction ids with
  | nil => exact fun plan => .pure plan
  | cons id rest ih =>
      refine fun plan => .get_bind fun s => ?_
      split
      · exact Action.ensures_pure.mpr rfl
      · refine Action.ensures_bind.mpr (Action.ensures_set.mpr ?_)
        exact Action.Keeps.bind (onCache_keeps (Cache.allocate_keeps id))
          (fun _ => .bind (startRunning_keeps _ id) fun _ => ih _) _

theorem arrange_keeps : arrange.Keeps ledger := by
  refine .bind (.modify fun _ => rfl) fun _ => .bind .get fun s =>
    .bind (reserve_keeps _ _) fun swapOut => .bind .get fun s => .bind (readmit_keeps _ _) fun plan =>
    .bind .get fun s => ?_
  exact .ite (.bind (admitWaiting_keeps _ _) fun _ => .pure _) (.bind (.pure _) fun _ => .pure _)

end Scheduler

theorem Assembly.consider_keeps (l : Limits) (a : Assembly) (id : SeqId) :
    (consider l a id).Keeps Cache.transcripts := by
  have takeIn : (a.takeIn id).Keeps Cache.transcripts :=
    .bind (Cache.look_keeps id) fun _ => .bind (Cache.grow_keeps id _) fun _ =>
      .bind (Cache.look_keeps id) fun _ => .bind (.ofExcept _) fun _ => .pure _
  exact .bind .get fun _ => .ite (.pure _) (.ite (.pure _) (.ite (.pure _) (.ite (.pure _)
    (.ite (.pure _) takeIn))))

theorem Assembly.build_keeps (l : Limits) (candidates : List SeqId) :
    (build l candidates).Keeps Cache.transcripts :=
  .bind .get fun _ => .bind (.foldlM (consider_keeps l) _ _) fun _ =>
    .ite (.bind (Cache.report_keeps _ _ _) fun _ => .pure _) (.pure _)

namespace Scheduler

/-- Planning leaves the ledger as it is, since nobody is rejected. -/
theorem schedule_ledger {s : Scheduler} {slack : Prop} (orderly : s.Orderly [] [] slack) :
    schedule.Ensures s fun _ s' => s'.ledger = s.ledger := by
  rw [schedule_eq, Action.ensures_bind]
  refine ((arrange_returns orderly).ensures.and (arrange_keeps s)).weaken ?_
  rintro ⟨swapOut, plan⟩ m ⟨aligned, same⟩
  obtain ⟨_, _, _, _, _, _, _, _, orderly', _, _⟩ := aligned
  refine (assemble_returns orderly' swapOut plan).ensures.weaken ?_
  rintro b s' ⟨a, c, run, rfl, _⟩
  have built := onCache_keeps (Assembly.build_keeps m.limits m.running) m a { m with cache := c }
    (by simp [onCache, Action.within, run])
  exact built.trans same

theorem prepare_ledger {s : Scheduler} {slack : Prop} (orderly : s.Orderly [] [] slack) :
    prepare.Ensures s fun p s' => p.outputs = s.pending ∧ s'.ledger = { s.ledger with pending := [] } := by
  simp only [prepare, Action.ensures_bind, Action.ensures_get]
  refine (schedule_ledger orderly).weaken ?_
  intro b m same
  simp only [takePending, Action.ensures_modifyGet, Action.ensures_pure]
  rw [← same]
  exact ⟨congrArg Ledger.pending same, rfl⟩

end Scheduler

end PagedServing
