import PagedServing.Proofs.Cache.Transfer
import PagedServing.Proofs.Scheduler.Capacity
import PagedServing.Proofs.Scheduler.Intake

/-! # Preempting sequences

A sequence that is preempted gives its device blocks back: to the host pool, with a copy of
each, or for good. The running sequences are preempted one after the other, the latest
first, each of them once.
-/

namespace PagedServing.Scheduler

open Cache (Moves)

variable {s s' : Scheduler} {id : SeqId} {slack : Prop}

/-- What becomes of the blocks of one preempted sequence, and which copies that takes. -/
inductive Preempted (c : Cache) (id : SeqId) : Cache → Moves → Prop where
  | freed {c' : Cache} (changes : c.Changes c') (device : c'.isSwapped id = false) :
      Preempted c id c' {}
  | swapped {c₁ c₂ c' : Cache} {q : Sequence} {blocks : List Int}
      (first : c.Noted c₁ id q) (computed : q.computed ≤ (c.sequence id).computed)
      (out : c₁.SwappedOut c₂ id blocks) (changes : c₂.Changes c')
      (host : c'.isSwapped id = true) (table : (c'.sequence id).table = blocks) :
      Preempted c id c' (.ofList ((c.sequence id).table.zip blocks))

/-- A run of preemptions. -/
abbrev Evicted : Cache → List SeqId → Cache → Moves → Prop :=
  Cache.Transferred Preempted

/-- The blocks that a running sequence has between two iterations. -/
structure Runs (c : Cache) (id : SeqId) (slack : Prop := False) : Prop where
  status : (c.sequence id).status = .running
  device : c.isSwapped id = false
  table : (c.sequence id).Covered 0 slack

/-- What giving the blocks of a running sequence back does. -/
structure Surrendered (c c' : Cache) (id : SeqId) (moves : Moves) : Prop where
  handled : c.Handled c' id
  account : (c'.sequence id).account = (c.sequence id).account
  natural : 0 ≤ (c'.sequence id).computed
  computed : (c'.sequence id).computed ≤ (c.sequence id).computed
  blocks : if c'.isSwapped id then (c'.sequence id).table.length = (c.sequence id).table.length
    else (c'.sequence id).table = []
  how : moves = {} ∧ c'.isSwapped id = false ∧ c.Changes c' ∨
    c.SwappedOut c' id (c'.sequence id).table ∧
      moves = .ofList ((c.sequence id).table.zip (c'.sequence id).table)

theorem evict_returns (sound : s.cache.Sound) (knows : s.cache.Knows id)
    (runs : Runs s.cache id slack) (progressed : Cache.Progressed (s.cache.sequence id)) :
    (evict id).Returns s fun (_, moves) s' => (∃ c, s' = { s with cache := c }) ∧
      Surrendered s.cache s'.cache id moves ∧
      (s.config.preemption = .recompute → s'.cache.isSwapped id = false) := by
  simp only [evict, Action.returns_bind, Action.returns_get]
  split
  · rename_i chosen
    obtain ⟨swap, room⟩ := Bool.and_eq_true_iff.mp chosen
    have swap : s.config.preemption = .swap := of_decide_eq_true swap
    simp only [Action.returns_bind, returns_onCache, Action.returns_pure]
    refine (Cache.swapOut_returns sound knows runs.device room).weaken ?_
    rintro moves c ⟨sound', blocks, out, which⟩
    have self := out.replaced.self
    have handled : s.cache.Handled c id :=
      .of_replaced sound' out.replaced (fun _ => out.isSwapped_others) rfl out.size
    obtain rfl : blocks = (c.sequence id).table := by rw [self]
    refine ⟨⟨c, rfl⟩, ⟨handled, ?_, ?_, ?_, ?_, Or.inr ⟨out, which⟩⟩, ?_⟩
    · rw [self]
      rfl
    · rw [self]
      exact progressed.natural
    · rw [self]
    · rw [if_pos out.isSwapped_self, out.length]
    · simp [swap]
  · simp only [Action.returns_bind, returns_onCache, Action.returns_pure]
    refine (Cache.release_bared sound knows progressed.computed).weaken fun _ c bared => ?_
    refine edit_returns bared.handled.knows' ⟨rfl, rfl⟩ fun c₁ noted => ?_
    have self := noted.replaced.self
    have device : c₁.isSwapped id = false :=
      (Cache.isSwapped_congr noted.swapped id).trans bared.device
    have handled := bared.handled.trans (.of_noted bared.handled.sound noted)
    have lower : (0 : Int) ≤ (c.sequence id).computed := bared.computed ▸ progressed.natural
    refine ⟨⟨c₁, rfl⟩, ⟨handled, ?_, ?_, ?_, ?_, Or.inl ⟨rfl, device,
      bared.changes.tail (.noted noted lower)⟩⟩, fun _ => device⟩
    · rw [self, ← bared.account]
      rfl
    · rw [self]
    · rw [self]
      exact progressed.natural
    · rw [if_neg (by simp [device]), self, ← bared.table]

/-- The part of a scheduler that preempting one sequence keeps. -/
structure Yielded (s s' : Scheduler) (id : SeqId) (moves : Moves) : Prop where
  preempted : Preempted s.cache id s'.cache moves
  handled : s.cache.Handled s'.cache id
  config : s'.config = s.config
  waiting : s'.waiting = s.waiting
  running : s'.running = s.running
  requests : s'.requests = s.requests
  line : s'.preempted = s'.queued id s.preempted
  count : s'.preemptedLast = s.preemptedLast + 1
  account : (s'.cache.sequence id).account = (s.cache.sequence id).account
  computed : (s'.cache.sequence id).computed ≤ (s.cache.sequence id).computed

/-- The last running sequence, which does not run alone, was preempted for want of blocks. -/
structure Retreat (s s' : Scheduler) (id : SeqId) (slack : Prop := False) : Prop where
  scarce : s.cache.device.freeCount < s.demand
  result : s' = (preempt id).after { s with running := s.running.erase id }
  running : s.running = s'.running ++ [id]
  some : s'.running ≠ []
  preempted : s'.preempted = s'.queued id s.preempted
  count : s'.preemptedLast = s.preemptedLast + 1
  waiting : s'.waiting = s.waiting
  requests : s'.requests = s.requests
  config : s'.config = s.config
  before : s.Orderly [] [] slack
  after : s'.Orderly [] [] slack
  handled : s.cache.Handled s'.cache id
  account : (s'.cache.sequence id).account = (s.cache.sequence id).account
  computed : (s'.cache.sequence id).computed ≤ (s.cache.sequence id).computed

/-- A run of preemptions, seen in the queues. -/
abbrev Retreated (s s' : Scheduler) (slack : Prop := False) : Prop :=
  Relation.ReflTransGen (fun s s' => ∃ id, s.Retreat s' id slack) s s'

/-- What preempting a sequence does to the cache. -/
structure Shelved (c c' : Cache) (id : SeqId) (moves : Moves) (slack : Prop := False) : Prop where
  handled : c.Handled c' id
  status : (c'.sequence id).status = .preempted
  account : (c'.sequence id).account = (c.sequence id).account
  computed : (c'.sequence id).computed ≤ (c.sequence id).computed
  progressed : Cache.Progressed (c'.sequence id)
  placed : c'.Placed id 0 slack
  preempted : ∀ journal, Preempted c id { c' with journal } moves

section Shelving

variable {c c₁ c₂ c₃ : Cache}

theorem Runs.noted {q : Sequence} (runs : Runs c id slack) (noted : c.Noted c₁ id q)
    (status : q.status = (c.sequence id).status) : Runs c₁ id slack where
  status := by rw [noted.replaced.self, status, runs.status]
  device := (Cache.isSwapped_congr noted.swapped id).trans runs.device
  table := by
    have size : (c₁.sequence id).blockSize = (c.sequence id).blockSize := by
      rw [noted.replaced.self, noted.alike.size]
    exact runs.table.congr (congrArg List.length (noted.tables id)) (noted.length id) size

/-- The blocks are given back between two notes about the sequence. -/
theorem Surrendered.shelved {moves : Moves} {count : Nat} (sound : c.Sound)
    (progressed : Cache.Progressed (c.sequence id)) (runs : Runs c id slack)
    (first : c.Noted c₁ id { c.sequence id with preemptions := count })
    (surrendered : Surrendered c₁ c₂ id moves)
    (third : c₂.Noted c₃ id { c₂.sequence id with status := .preempted }) :
    Shelved c c₃ id moves slack := by
  have self₁ := first.replaced.self
  have self₃ := third.replaced.self
  have swapped₃ : c₃.isSwapped id = c₂.isSwapped id := Cache.isSwapped_congr third.swapped id
  have status : (c₃.sequence id).status = .preempted := by rw [self₃]
  have account : (c₃.sequence id).account = (c.sequence id).account :=
    (third.account id).trans (surrendered.account.trans (first.account id))
  have length := Sequence.length_of_account account
  have table : (c₃.sequence id).table = (c₂.sequence id).table := third.tables id
  have handled : c.Handled c₃ id :=
    ((Cache.Handled.of_noted sound first).trans surrendered.handled).trans
      (.of_noted surrendered.handled.sound third)
  have blocks := surrendered.blocks
  rw [self₁] at blocks
  have less : (c₃.sequence id).computed ≤ (c.sequence id).computed := by
    have less := surrendered.computed
    rw [self₁] at less
    rw [self₃]
    exact less
  refine ⟨handled, status, account, less, ⟨?_, ?_, ?_⟩, ⟨?_, ?_, ?_⟩, fun journal => ?_⟩
  · rw [self₃]
    exact surrendered.natural
  · rw [length]
    exact less.trans progressed.computed
  · simp [status]
  · simp [status]
  · intro swapped
    rw [swapped₃] at swapped
    rw [if_pos swapped] at blocks
    exact ⟨status, runs.table.congr (table ▸ blocks) length (handled.sized sound)⟩
  · intro _ device
    rw [swapped₃] at device
    rw [if_neg (by simp [device])] at blocks
    rw [table, blocks]
  · have last : c₂.Changes { c₃ with journal } :=
      .tail (.single (.noted third (Int.le_refl _))) (.reported c₃ journal)
    -- recomputed or moved to the host
    rcases surrendered.how with ⟨rfl, device, changes⟩ | ⟨out, which⟩
    · refine .freed (.trans ?_ last) (swapped₃.trans device)
      exact .head (.noted first (Int.le_refl _)) changes
    · rw [which, first.tables id]
      exact .swapped first (Int.le_refl _) out last (swapped₃.trans out.isSwapped_self) table

end Shelving

theorem preempt_returns (orderly : s.Orderly [id] [] slack) (runs : Runs s.cache id slack)
    (short : (s.cache.sequence id).length < s.config.maxLength) :
    (preempt id).Returns s fun moves s' => s'.Orderly [] [] slack ∧ s.Yielded s' id moves := by
  have knows := (orderly.lined.apart id List.mem_cons_self).1
  have progressed := orderly.staged.progressed id knows
  simp only [preempt, Action.returns_bind]
  refine edit_returns knows ⟨rfl, rfl⟩ fun c₁ first => ?_
  rw [Action.returns_modify]
  have handled₁ := Cache.Handled.of_noted orderly.sound first
  have progressed₁ : Cache.Progressed (c₁.sequence id) := by
    rw [first.replaced.self]
    exact ⟨progressed.natural, progressed.computed, progressed.untouched⟩
  have runs₁ : Runs c₁ id slack := runs.noted first rfl
  refine (evict_returns handled₁.sound handled₁.knows' runs₁ progressed₁).weaken ?_
  rintro ⟨mode, moves⟩ s₂ ⟨⟨c₂, same⟩, surrendered, recompute⟩
  subst same
  have surrendered : Surrendered c₁ c₂ id moves := surrendered
  have recompute : s.config.preemption = .recompute → c₂.isSwapped id = false := recompute
  simp only [Action.returns_get]
  refine edit_returns surrendered.handled.knows' ⟨rfl, rfl⟩ fun c₃ third => ?_
  rw [Action.returns_modify]
  refine report_returns fun journal => ?_
  rw [Action.returns_pure]
  have shelved := surrendered.shelved orderly.sound progressed runs first third
  constructor
  · let s₃ := { s with
      cache := c₃, preemptedLast := s.preemptedLast + 1, preemptions := s.preemptions + 1 }
    have worked : s₃.Orderly [id] [] slack :=
      orderly.worked shelved.handled ⟨rfl, rfl, fun _ => rfl⟩ shelved.progressed fun mode =>
        (Cache.isSwapped_congr third.swapped id).trans (recompute mode)
    exact (worked.linedUp rfl shelved.status (queued_perm _ id _) shelved.placed
      (Sequence.length_of_account shelved.account ▸ short)).reported journal
  · exact ⟨shelved.preempted journal, shelved.handled.trans (.of_report shelved.handled.sound
      shelved.handled.knows' journal), rfl, rfl, rfl, rfl, rfl, rfl, shelved.account,
      shelved.computed⟩

theorem Orderly.runs (orderly : s.Orderly [] [] slack) (member : id ∈ s.running) :
    Runs s.cache id slack := by
  obtain ⟨knows, status⟩ := orderly.lined.running id member
  obtain ⟨device, table⟩ := (orderly.staged.placed id knows List.not_mem_nil).running status
  exact ⟨status, device, table⟩

theorem apart_rest {done rest : List SeqId} (distinct : (id :: rest).Nodup)
    (apart : ∀ other ∈ done, other ∉ id :: rest) : ∀ other ∈ id :: done, other ∉ rest := by
  intro other among
  rcases List.mem_cons.mp among with rfl | before
  · exact (List.nodup_cons.mp distinct).1
  · exact fun later => apart other before (List.mem_cons_of_mem _ later)

theorem reserve_returns (c : Cache) (ids : List SeqId) :
    ∀ {s : Scheduler} {victims : List SeqId} {moves : Moves}, s.Orderly [] [] slack →
      s.running = ids.reverse → Evicted c victims s.cache moves → (∀ id ∈ victims, id ∉ ids) →
      (reserve moves ids).Returns s fun out s' => s'.Orderly [] [] slack ∧ s'.config = s.config ∧
        ∃ victims', Evicted c victims' s'.cache out ∧ (∀ id ∈ victims', id ∈ victims ∨ id ∈ ids) ∧
          s.Retreated s' slack ∧ s'.demand ≤ s'.cache.device.freeCount := by
  induction ids with
  | nil =>
      intro s victims moves orderly running evicted _
      have room : s.demand ≤ s.cache.device.freeCount := by
        simp [demand, running]
      simpa [reserve] using ⟨orderly, victims, evicted, fun _ member => member, .refl, room⟩
  | cons latest others ih =>
      intro s victims moves orderly running evicted apart
      simp only [reserve, Action.returns_bind, Action.returns_get]
      split
      · rename_i room
        exact Action.returns_pure.mpr
          ⟨orderly, rfl, victims, evicted, fun id member => Or.inl member, .refl, room⟩
      · rename_i scarce
        simp only [Action.returns_bind, Action.returns_set]
        have split : s.running = others.reverse ++ [latest] := by simpa using running
        have member : latest ∈ s.running := by simp [split]
        have distinct : (latest :: others).Nodup :=
          List.nodup_reverse.mp (running ▸ orderly.lined.nodup .running)
        have absent : latest ∉ others.reverse := by simpa using (List.nodup_cons.mp distinct).1
        have registered := orderly.mem_values .running member
        have erased : s.running.dropLast = s.running.erase latest := by
          simp [split, List.erase_append_right _ absent]
        have left : s.Left { s with running := s.running.dropLast } latest :=
          orderly.lined.leaves .running member erased
        have short := orderly.registered.short latest registered List.not_mem_nil
        refine (preempt_returns (orderly.left registered left) (orderly.runs member)
          short).run.weaken ?_
        rintro more s₂ ⟨run, orderly₂, yielded⟩
        have running₂ : s₂.running = others.reverse := by
          rw [yielded.running]
          simp [split]
        have evicted₂ := evicted.next (fun among => apart latest among List.mem_cons_self)
          yielded.handled yielded.preempted
        have retreat : s.Retreat s₂ latest slack := by
          refine ⟨Int.not_le.mp scarce, by simp only [← erased, Action.after, run],
            by rw [running₂, split], fun empty => ?_, yielded.line, yielded.count, yielded.waiting,
            yielded.requests, yielded.config, orderly, orderly₂, yielded.handled, yielded.account,
            yielded.computed⟩
          -- alone, the sequence would have found room
          have alone : s.running = [latest] := by rw [split, ← running₂, empty, List.nil_append]
          exact scarce (orderly.demand_le_of_alone alone)
        refine (ih orderly₂ running₂ evicted₂ (apart_rest distinct apart)).weaken ?_
        rintro out s₃ ⟨orderly₃, config, victims', evicted₃, among, retreated, room⟩
        refine ⟨orderly₃, config.trans yielded.config, victims', evicted₃, fun id victim => ?_,
          .head ⟨latest, retreat⟩ retreated, room⟩
        have := among id victim
        simp only [List.mem_cons] at this ⊢
        tauto

end PagedServing.Scheduler
