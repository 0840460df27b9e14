import PagedServing.Proofs.Scheduler.Assembly

/-! # Planning an iteration

Planning never fails. It preempts, lets sequences run again and for the first time, and
assembles the batch, in this order; so all copies to the host come before all copies back.
-/

namespace PagedServing.Scheduler

open Batch (Laid)
open Cache (Moves)

variable {s s' : Scheduler} {b : Batch} {slack : Prop}

/-- How the blocks move while an iteration is planned. -/
inductive Moved (config : Config) (c c' : Cache) (swapOut swapIn : Moves) : Prop where
  | intro {victims ids : List SeqId} {c₁ c₂ : Cache} (evicted : Evicted c victims c₁ swapOut)
      (unswapped : config.preemption = .recompute → ∀ id, c₁.isSwapped id = false)
      (admitted : Admitted c₁ ids c₂ swapIn) (changes : c₂.Changes c') :
      Moved config c c' swapOut swapIn

/-- What planning does, from the cache `c` on. -/
structure Planned (c : Cache) (s : Scheduler) (b : Batch) (slack : Prop := False) : Prop where
  orderly : s.Orderly [] b.sequences slack
  moved : Moved s.config c s.cache b.swapOut b.swapIn
  laid : Laid b b.sequences s.cache
  nodup : b.sequences.Nodup
  running : ∀ id ∈ b.sequences, id ∈ s.running
  blockSize : b.blockSize = s.cache.blockSize
  copies : b.copies = []

/-- The batch is assembled: tables grow, and all take part if there is room for them. -/
structure Built (s s' : Scheduler) (b : Batch) : Prop where
  unmoved : s.Unmoved s'
  enlarged : Enlarged s.cache s'.cache
  supplied : s.cache.Supplied s'.cache
  all : s.Roomy → b.sequences = Assembly.prioritised s.cache s.running

/-- The queues are settled: sequences are preempted until the rest can go on, and others are let
    run. The answer has the copies to the host and the claims of those that run. -/
def arrange : Action Scheduler (Moves × Plan) := do
  modify fun s => { s with preemptedLast := 0 }
  let swapOut ← reserve {} (← get).running.reverse
  let s ← get
  let plan ← readmit s.claims s.preempted
  let s ← get
  let plan ← if s.preempted.isEmpty then admitWaiting plan s.waiting else pure plan
  return (swapOut, plan)

/-- The batch is assembled from the sequences that run. -/
def assemble (swapOut : Moves) (plan : Plan) : Action Scheduler Batch := do
  let s ← get
  let assembly ← onCache (Assembly.build s.limits s.running)
  rejectEach assembly.rejected
  return { assembly.batch with swapIn := plan.swapIn, swapOut }

theorem schedule_eq : schedule = arrange >>= fun (swapOut, plan) => assemble swapOut plan := by
  simp only [schedule, arrange, assemble, bind_assoc, pure_bind]
  refine bind_congr fun _ => bind_congr fun _ => bind_congr fun _ => bind_congr fun _ =>
    bind_congr fun _ => bind_congr fun _ => ?_
  split <;> simp only [bind_assoc, pure_bind]

/-- How the queues change while an iteration is planned: sequences are preempted until the rest
    can go on, others are let run up to the first that cannot, and the batch is assembled. -/
inductive Arranged (s s' : Scheduler) (b : Batch) (slack : Prop := False) : Prop where
  | intro {s₁ s₂ : Scheduler} {plan : Plan}
      (retreated : { s with preemptedLast := 0 }.Retreated s₁ slack) (orderly : s₁.Orderly [] [] slack)
      (room : s₁.demand ≤ s₁.cache.device.freeCount)
      (advanced : Advanced (s₁, s₁.claims) (s₂, plan) slack) (orderly' : s₂.Orderly [] [] slack)
      (stuck : s₂.Stuck plan (s₂.preempted ++ s₂.waiting)) (built : s₂.Built s' b)
      (swapIn : b.swapIn = plan.swapIn) : Arranged s s' b slack

/-- What settling the queues passes through: preempting leads to `s₁`, and admitting to `m`. -/
inductive Aligned (s m : Scheduler) (swapOut : Moves) (plan : Plan) (slack : Prop := False) :
    Prop where
  | intro {s₁ : Scheduler} {victims ids : List SeqId}
      (reserved : reserve {} s.running.reverse { s with preemptedLast := 0 } = .ok swapOut s₁)
      (evicted : Evicted s.cache victims s₁.cache swapOut)
      (retreated : { s with preemptedLast := 0 }.Retreated s₁ slack) (orderly₁ : s₁.Orderly [] [] slack)
      (config₁ : s₁.config = s.config) (room : s₁.demand ≤ s₁.cache.device.freeCount)
      (admitted : Admitted s₁.cache ids m.cache plan.swapIn)
      (advanced : Advanced (s₁, s₁.claims) (m, plan) slack) (orderly : m.Orderly [] [] slack)
      (config : m.config = s.config) (stuck : m.Stuck plan (m.preempted ++ m.waiting)) :
      Aligned s m swapOut plan slack

theorem arrange_returns (orderly : s.Orderly [] [] slack) :
    arrange.Returns s fun (swapOut, plan) m => s.Aligned m swapOut plan slack := by
  have orderly₀ : { s with preemptedLast := 0 }.Orderly [] [] slack :=
    orderly.unmoved rfl ⟨rfl, rfl, fun _ => rfl⟩
  simp only [arrange, Action.returns_bind, Action.returns_modify, Action.returns_get]
  refine (reserve_returns s.cache _ orderly₀ (List.reverse_reverse _).symm .nobody
    (by simp)).run.weaken ?_
  rintro swapOut s₁ ⟨run, orderly₁, config₁, victims, evicted, _, retreated, room⟩
  refine (readmit_returns s₁.cache _ orderly₁ rfl (demand_nonneg s₁) .nobody (by simp)).weaken ?_
  rintro plan s₂ ⟨orderly₂, config₂, waiting, reserved, done, admitted, among, advanced, stuck⟩
  split
  · rename_i resumed
    have apart : ∀ id ∈ done, id ∉ s₂.waiting := by
      intro id member waits
      have shelved : id ∈ s₁.preempted := (among id member).resolve_left List.not_mem_nil
      have status := (orderly₁.lined.waiting id (waiting ▸ waits)).2
      simp [(orderly₁.lined.preempted id shelved).2] at status
    rw [Action.returns_bind]
    refine (admitWaiting_returns s₁.cache _ orderly₂ (List.isEmpty_iff.mp resumed) rfl reserved
      admitted apart).weaken ?_
    rintro plan' s₃ ⟨orderly₃, config₃, resumed₃, ids, admitted₃, more, stuck₃⟩
    refine Action.returns_pure.mpr (.intro run evicted retreated orderly₁ config₁ room admitted₃
      (advanced.trans more) orderly₃ ((config₃.trans config₂).trans config₁) ?_)
    rw [resumed₃]
    exact stuck₃
  · rename_i shelved
    rw [pure_bind, Action.returns_pure]
    refine .intro run evicted retreated orderly₁ config₁ room admitted advanced orderly₂
      (config₂.trans config₁) ?_
    cases queue : s₂.preempted with
    | nil => simp [queue] at shelved
    | cons id rest =>
        rw [queue] at stuck
        exact stuck

theorem assemble_returns (orderly : s.Orderly [] [] slack) (swapOut : Moves) (plan : Plan) :
    (assemble swapOut plan).Returns s fun b s' => ∃ a c,
      Assembly.build s.limits s.running s.cache = .ok a c ∧ s' = { s with cache := c } ∧
      b = { a.batch with swapIn := plan.swapIn, swapOut } ∧ s.Packed c a slack ∧ Enlarged s.cache c ∧
      (s.Roomy → a.admitted = Assembly.prioritised s.cache s.running) := by
  simp only [assemble, Action.returns_bind, Action.returns_get, returns_onCache]
  refine (build_returns orderly).run.weaken ?_
  rintro a c ⟨run, packed, enlarged, all⟩
  rw [packed.rejected, rejectEach]
  simp only [Action.returns_pure]
  exact ⟨a, c, run, rfl, rfl, packed, enlarged, all⟩

/-- Planning never fails. The copies to the host are those of the preemptions. -/
theorem schedule_returns (orderly : s.Orderly [] [] slack) :
    schedule.Returns s fun b s' => Planned s.cache s' b slack ∧ s'.config = s.config ∧
      s.Arranged s' b slack ∧
      ∃ mid, reserve {} s.running.reverse { s with preemptedLast := 0 } = .ok b.swapOut mid := by
  rw [schedule_eq, Action.returns_bind]
  refine (arrange_returns orderly).weaken ?_
  rintro ⟨swapOut, plan⟩ m ⟨reserved, evicted, retreated, orderly₁, config₁, room, admitted,
    advanced, orderly₂, config, stuck⟩
  refine (assemble_returns orderly₂ swapOut plan).weaken ?_
  rintro b s' ⟨a, c, _, rfl, rfl, packed, enlarged, all⟩
  have sequences := packed.laid.sequences
  refine ⟨?_, config, ?_, _, reserved⟩
  · constructor
    case orderly => exact sequences ▸ packed.orderly
    case moved =>
      refine .intro evicted (fun mode => ?_) admitted packed.changes
      have mode : m.config.preemption = .recompute := mode
      rw [config, ← config₁] at mode
      exact orderly₁.configured.unswapped mode
    case laid => exact (sequences ▸ packed.laid).moving plan.swapIn swapOut
    case nodup => exact sequences ▸ packed.nodup
    case running => exact sequences ▸ packed.running
    case blockSize => exact packed.blockSize
    case copies => exact packed.copies
  · refine .intro retreated orderly₁ room advanced orderly₂ stuck
      ⟨⟨rfl, rfl, fun _ => rfl⟩, enlarged, packed.supplied, fun roomy => ?_⟩ rfl
    exact sequences.trans (all roomy)

end PagedServing.Scheduler
