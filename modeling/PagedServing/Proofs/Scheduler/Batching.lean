import PagedServing.Proofs.Scheduler.Progress

/-! # Batches of all that run

Planning foresees with one set of rules what assembling a batch demands by another. The two agree:
whoever runs when the queues are settled takes part, in the order of priority, and finds its blocks.
-/

namespace PagedServing

open Batch (Laid)

theorem Batch.Laid.tokenCount {b : Batch} {ids : List SeqId} {c : Cache} (laid : Laid b ids c)
    (progressed : ∀ id ∈ ids, Cache.Progressed (c.sequence id)) :
    (b.tokenCount : Int) = total (ids.map fun id => (c.sequence id).uncomputed) := by
  rw [Batch.tokenCount, laid.tokens]
  clear laid
  induction ids with
  | nil => rfl
  | cons id rest ih =>
      have here := progressed id List.mem_cons_self
      have first := Offset.length_suffix here.natural here.computed
      have others := ih fun other among => progressed other (List.mem_cons_of_mem _ among)
      rw [List.flatMap_cons, List.length_append, List.map_cons, total_cons]
      push_cast
      rw [first, others]

namespace Scheduler

variable {s s' : Scheduler} {b : Batch}

/-- A batch of everybody who runs, in the order of priority. It keeps the limits, everybody has
    something to do in it, and every table covers one token more than its sequence has. -/
structure Batched (s : Scheduler) (b : Batch) : Prop where
  members : b.sequences = s.running
  ranked : s.Ranked b.sequences
  size : b.size ≤ s.config.maxSequences
  tokens : b.tokenCount ≤ s.config.maxBatchedTokens
  spans : b.spans = b.sequences.map fun id => (s.sequence id).uncomputed
  busy : ∀ n ∈ b.spans, 1 ≤ n
  contexts : b.contexts = b.sequences.map fun id => (s.sequence id).length
  tables : b.tables = b.sequences.map fun id => (s.sequence id).table
  covered : ∀ id ∈ b.sequences, (s.sequence id).length + 1 ≤ (s.sequence id).capacity

/-- When the batch was assembled, everybody who ran took part, and nobody was rejected. -/
inductive Undeferred (s : Scheduler) (b : Batch) : Prop where
  | intro {m : Scheduler} {swapOut : Cache.Moves} {plan : Plan} {a : Assembly} {c : Cache}
      (arranged : arrange s = .ok (swapOut, plan) m)
      (built : Assembly.build m.limits m.running m.cache = .ok a c)
      (admitted : a.admitted = m.running) (rejected : a.rejected = [])
      (batch : b = { a.batch with swapIn := plan.swapIn, swapOut }) : Undeferred s b

theorem Packed.batched {c : Cache} {a : Assembly} (packed : s.Packed c a)
    (enlarged : Enlarged s.cache c) (ranked : s.Ranked s.running) (roomy : s.Roomy)
    (pending : s.Pending) (members : a.admitted = s.running) :
    { s with cache := c }.Batched a.batch := by
  let t := { s with cache := c }
  have unmoved : s.Unmoved t := ⟨rfl, rfl, fun _ => rfl⟩
  have steady : s.Steady t := enlarged.steady unmoved
  have pending : t.Pending := enlarged.pending unmoved pending
  have orderly : t.Orderly [] s.running := members ▸ packed.orderly
  have laid : Laid a.batch s.running c := members ▸ packed.laid
  have progressed : ∀ id ∈ s.running, Cache.Progressed (c.sequence id) := fun id runs =>
    orderly.staged.progressed id (orderly.lined.running id runs).1
  have sequences : a.batch.sequences = s.running := laid.sequences
  constructor
  case members => exact sequences
  case ranked =>
    rw [sequences]
    exact steady.ranked ranked
  case size =>
    rw [Batch.size, sequences]
    exact roomy.sequences
  case tokens =>
    -- packing only lets tables grow, so the claims on the budget are those from before
    have claimed : (s.running.map fun id => (c.sequence id).uncomputed) =
        s.running.map fun id => (s.cache.sequence id).uncomputed := by
      refine List.map_congr_left fun id _ => ?_
      rcases enlarged id with same | ⟨_, more, self⟩
      · rw [same]
      · rw [self]
        rfl
    have count := laid.tokenCount progressed
    have budget := roomy.tokens
    rw [← claimed, ← count] at budget
    exact Int.ofNat_le.mp budget
  case spans =>
    rw [sequences]
    exact laid.spans
  case busy =>
    intro n among
    rw [laid.spans] at among
    obtain ⟨id, runs, rfl⟩ := List.mem_map.mp among
    exact pending id (orderly.mem_values .running runs)
  case contexts =>
    rw [sequences]
    exact laid.contexts
  case tables =>
    rw [sequences]
    exact laid.tables
  case covered =>
    intro id among
    rw [sequences] at among
    obtain ⟨knows, status⟩ := orderly.lined.running id among
    have placed := orderly.staged.placed id knows List.not_mem_nil
    rw [if_pos among] at placed
    exact (placed.running status).2.next_le_capacity

theorem prepare_batched (orderly : s.Orderly [] []) (paced : s.Paced) :
    prepare.Returns s fun p s' => s'.config = s.config ∧ s'.Batched p.batch ∧
      s.Undeferred p.batch := by
  simp only [prepare, schedule_eq, Action.returns_bind, Action.returns_get]
  refine (arrange_returns orderly).run.weaken ?_
  rintro ⟨swapOut, plan⟩ m ⟨run, reserved, evicted, retreated, orderly₁, config₁, room, admitted,
    advanced, orderly₂, config, stuck⟩
  obtain ⟨-, ranked, claimed, pending⟩ := paced.musters orderly retreated room advanced
  have ranked : m.Ranked m.running := (List.pairwise_append.mp ranked).1
  refine (assemble_returns orderly₂ swapOut plan).weaken ?_
  rintro b s' ⟨a, c, built, rfl, rfl, packed, enlarged, all⟩
  have members : a.admitted = m.running := (all claimed.roomy).trans ranked.prioritised
  have batched := packed.batched enlarged ranked claimed.roomy pending members
  rw [takePending_returns, Action.returns_pure]
  refine ⟨config, ⟨?_, ?_, ?_, ?_, ?_, ?_, ?_, ?_, ?_⟩, .intro run built members packed.rejected rfl⟩
  · exact batched.members
  · exact batched.ranked
  · exact batched.size
  · exact batched.tokens
  · exact batched.spans
  · exact batched.busy
  · exact batched.contexts
  · exact batched.tables
  · exact batched.covered

namespace Driven

variable {ω : Type} {config : Config} {device : Device ω} {d : Driven ω}

/-- No iteration meets a fault, whatever the device answers. It is planned with a batch in which
    everybody who runs takes part, and that batch is what the device is given. -/
theorem step_undeferred (valid : device.Valid) (reachable : Reachable config device d) :
    ∃ p m, prepare d.scheduler = .ok p m ∧ m.config = config ∧ m.Batched p.batch ∧
      d.scheduler.Undeferred p.batch ∧ (step (some device)).Returns d fun result d' =>
        complete device p { d with scheduler := m } = .ok result d' := by
  obtain ⟨orderly, same⟩ := reachable.orderly valid
  obtain ⟨p, m, prepared, kept, batched, undeferred⟩ :=
    prepare_batched orderly (reachable.paced valid)
  refine ⟨p, m, prepared, kept.trans same, batched, undeferred, ?_⟩
  refine (step_returns orderly valid).run.weaken fun result d' ⟨run, _⟩ => ?_
  rw [← step_of_prepared prepared, run]

/-- Two requests that run after two iterations take part in the third. -/
theorem step_undeferred_sevens :
    let d := (((smallStart .swap true).request [5, 6]).request [5]).iterate sevens 2
    d.scheduler.running = [0, 1] ∧ ∃ p m, prepare d.scheduler = .ok p m ∧ m.Batched p.batch ∧
      d.scheduler.Undeferred p.batch ∧ (step (some sevens)).Returns d fun result d' =>
        complete sevens p { d with scheduler := m } = .ok result d' := by
  intro d
  have reachable : Reachable (smallConfig .swap true) sevens d :=
    (((smallStart_reachable .swap true).requestSeven [5, 6] (by decide)).requestSeven [5]
      (by decide)).iterate 2
  obtain ⟨p, m, prepared, _, batched, undeferred, returns⟩ :=
    step_undeferred sevens_valid reachable
  exact ⟨by decide +kernel, p, m, prepared, batched, undeferred, returns⟩

end Driven

end Scheduler

end PagedServing
