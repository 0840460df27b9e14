import PagedServing.Proofs.Cache.Change
import PagedServing.Scheduler.Basic

/-! # Orderly schedulers

Between two operations every sequence has the blocks that its status calls for and stands
in the queue of its status, and the registered requests are the queued ones. While an
operation works on a sequence, that one is set aside: it stands in no queue, and nothing is
said about its blocks. An operation that was broken off leaves some slack: tables may still
cover a token that never came.
-/

namespace PagedServing

namespace Sequence

/-- The number of blocks that `tokens` tokens of a sequence take. -/
def blocksFor (q : Sequence) (tokens : Nat) : Nat :=
  (tokens + q.blockSize - 1) / q.blockSize

theorem blocksFor_mono (q : Sequence) {tokens more : Nat} (less : tokens ≤ more) :
    q.blocksFor tokens ≤ q.blocksFor more :=
  Nat.div_le_div_right (by omega)

theorem le_capacity_of_blocksFor (q : Sequence) {tokens : Nat}
    (covered : q.blocksFor tokens ≤ q.table.length) : tokens ≤ q.table.length * q.blockSize := by
  have size := q.blockSize_pos
  refine Nat.le_trans ?_ (Nat.mul_le_mul_right q.blockSize covered)
  have := Nat.div_add_mod (tokens + q.blockSize - 1) q.blockSize
  have := Nat.mod_lt (tokens + q.blockSize - 1) size
  rw [Sequence.blocksFor, Nat.mul_comm]
  omega

/-- The table of a sequence is for its tokens and `ahead` more. With slack it may be for one
    more than those that the sequence has. -/
def Covered (q : Sequence) (ahead : Nat) (slack : Prop) : Prop :=
  q.table.length = q.blocksFor (q.length + ahead) ∨
    slack ∧ q.table.length = q.blocksFor (q.length + 1)

namespace Covered

variable {q q' : Sequence} {ahead : Nat} {slack : Prop}

theorem exact (covered : q.Covered ahead False) : q.table.length = q.blocksFor (q.length + ahead) :=
  covered.resolve_right fun both => both.1

theorem next (covered : q.Covered 1 slack) : q.table.length = q.blocksFor (q.length + 1) :=
  covered.elim (fun exact => exact) fun both => both.2

theorem least (covered : q.Covered ahead slack) : q.blocksFor q.length ≤ q.table.length := by
  rcases covered with exact | ⟨_, exact⟩ <;> exact exact ▸ q.blocksFor_mono (Nat.le_add_right _ _)

theorem most (covered : q.Covered 0 slack) : q.table.length ≤ q.blocksFor (q.length + 1) := by
  rcases covered with exact | ⟨_, exact⟩ <;> exact exact ▸ q.blocksFor_mono (by omega)

theorem length_le_capacity (covered : q.Covered ahead slack) :
    q.length ≤ q.table.length * q.blockSize :=
  q.le_capacity_of_blocksFor covered.least

theorem next_le_capacity (covered : q.Covered 1 slack) :
    q.length + 1 ≤ q.table.length * q.blockSize :=
  q.le_capacity_of_blocksFor covered.next.ge

theorem congr (covered : q.Covered ahead slack) (table : q'.table.length = q.table.length)
    (length : q'.length = q.length) (size : q'.blockSize = q.blockSize) : q'.Covered ahead slack := by
  unfold Covered blocksFor at *
  rwa [table, length, size]

end Covered

end Sequence

namespace Cache

/-- A sequence has the blocks that its status calls for, where `ahead` tokens more than it
    has are covered if it runs. -/
structure Placed (c : Cache) (id : SeqId) (ahead : Nat) (slack : Prop := False) : Prop where
  running : (c.sequence id).status = .running → c.isSwapped id = false ∧
    (c.sequence id).Covered ahead slack
  swapped : c.isSwapped id = true → (c.sequence id).status = .preempted ∧
    (c.sequence id).Covered 0 slack
  bare : (c.sequence id).status ≠ .running → c.isSwapped id = false → (c.sequence id).table = []

variable {slack : Prop}

theorem Placed.of_bare {c : Cache} {id : SeqId} (idle : (c.sequence id).status ≠ .running)
    (device : c.isSwapped id = false) (bare : (c.sequence id).table = []) (ahead : Nat) :
    c.Placed id ahead slack where
  running runs := absurd runs idle
  swapped swapped := by simp [device] at swapped
  bare _ _ := bare

theorem Placed.congr {c c' : Cache} {id : SeqId} {ahead : Nat} (placed : c.Placed id ahead slack)
    (same : c'.sequence id = c.sequence id) (side : c'.isSwapped id = c.isSwapped id) :
    c'.Placed id ahead slack where
  running := by
    rw [same, side]
    exact placed.running
  swapped := by
    rw [same, side]
    exact placed.swapped
  bare := by
    rw [same, side]
    exact placed.bare

/-- A note that leaves the status leaves the blocks that it calls for. -/
theorem Placed.noted {c c' : Cache} {id : SeqId} {q : Sequence} {ahead : Nat}
    (placed : c.Placed id ahead slack) (noted : c.Noted c' id q)
    (status : q.status = (c.sequence id).status) : c'.Placed id ahead slack := by
  have side : c'.isSwapped id = c.isSwapped id := isSwapped_congr noted.swapped id
  have status : (c'.sequence id).status = (c.sequence id).status := by
    rw [noted.replaced.self, status]
  have size : (c'.sequence id).blockSize = (c.sequence id).blockSize := by
    rw [noted.replaced.self, noted.alike.size]
  have covered : ∀ ahead, (c.sequence id).Covered ahead slack → (c'.sequence id).Covered ahead slack :=
    fun _ covered => covered.congr (congrArg List.length (noted.tables id)) (noted.length id) size
  constructor
  case running =>
    rw [status, side]
    exact fun runs => (placed.running runs).imp_right (covered ahead)
  case swapped =>
    rw [status, side]
    exact fun swapped => (placed.swapped swapped).imp_right (covered 0)
  case bare =>
    rw [status, side, noted.tables]
    exact placed.bare

/-- No more of a sequence is computed than it has, and it has no completion before it is
    first admitted. -/
structure Progressed (q : Sequence) : Prop where
  natural : 0 ≤ q.computed
  computed : q.computed ≤ q.length
  untouched : q.status = .waiting → q.completion = []

theorem Placed.slacken {c : Cache} {id : SeqId} {ahead : Nat} (placed : c.Placed id ahead) :
    c.Placed id ahead slack where
  running runs := (placed.running runs).imp_right fun covered => Or.inl covered.exact
  swapped swapped := (placed.swapped swapped).imp_right fun covered => Or.inl covered.exact
  bare := placed.bare

/-- Some slack is left to the blocks of a sequence. -/
theorem Placed.loosen {c : Cache} {id : SeqId} {grown : Prop} [Decidable grown]
    (placed : c.Placed id (if grown then 1 else 0) slack) : c.Placed id 0 True where
  running runs := by
    refine (placed.running runs).imp_right fun covered => ?_
    split at covered
    · exact Or.inr ⟨trivial, Sequence.Covered.next covered⟩
    · exact covered.imp_right fun both => ⟨trivial, both.2⟩
  swapped swapped :=
    (placed.swapped swapped).imp_right fun covered => covered.imp_right fun both => ⟨trivial, both.2⟩
  bare := placed.bare

/-- Every sequence that is not set aside has its blocks. The tables of those in `grown`
    cover one token more than they have. -/
structure Staged (c : Cache) (aside grown : List SeqId) (slack : Prop := False) : Prop where
  placed : ∀ id, c.Knows id → id ∉ aside → c.Placed id (if id ∈ grown then 1 else 0) slack
  progressed : ∀ id, c.Knows id → Progressed (c.sequence id)

end Cache

namespace Scheduler

/-- The queue of the sequences with one status. Those that have ended stand in none. -/
def queueOf (s : Scheduler) : Status → List SeqId
  | .waiting => s.waiting
  | .running => s.running
  | .preempted => s.preempted
  | .finished => []
  | .cancelled => []

/-- Every queued sequence stands in the queue of its status, once, and whoever runs or is
    preempted is queued. -/
structure Lined (s : Scheduler) (aside : List SeqId) : Prop where
  nodup : ∀ status, (s.queueOf status).Nodup
  stands : ∀ status, ∀ id ∈ s.queueOf status,
    s.cache.Knows id ∧ (s.cache.sequence id).status = status
  apart : ∀ id ∈ aside, s.cache.Knows id ∧ ∀ status, id ∉ s.queueOf status
  queued : ∀ status id, s.cache.Knows id → (s.cache.sequence id).status = status →
    status = .running ∨ status = .preempted → id ∉ aside → id ∈ s.queueOf status

/-- The registered requests are the queued sequences, under their own names, and no queued
    one has reached the greatest length. -/
structure Registered (s : Scheduler) (aside : List SeqId) : Prop where
  keys_nodup : s.requests.keys.Nodup
  values_nodup : s.requests.values.Nodup
  mem_values : ∀ id, id ∈ s.requests.values ↔ (∃ status, id ∈ s.queueOf status) ∨ id ∈ aside
  named : ∀ e ∈ s.requests.entries, e.1 = (s.cache.sequence e.2).requestId
  short : ∀ id ∈ s.requests.values, id ∉ aside → (s.cache.sequence id).length < s.config.maxLength

/-- The cache is the one that the configuration asks for. -/
structure Configured (s : Scheduler) : Prop where
  blockSize : s.cache.blockSize = s.config.blockSize
  sharing : s.cache.sharing = s.config.sharing
  size : s.cache.device.size = s.config.deviceBlocks
  unswapped : s.config.preemption = .recompute → ∀ id, s.cache.isSwapped id = false

/-- All that the operations of a scheduler rely on. -/
structure Orderly (s : Scheduler) (aside grown : List SeqId) (slack : Prop := False) : Prop where
  sound : s.cache.Sound
  staged : s.cache.Staged aside grown slack
  lined : s.Lined aside
  registered : s.Registered aside
  configured : s.Configured

theorem Orderly.loosen {s : Scheduler} {aside grown : List SeqId} {slack : Prop}
    (orderly : s.Orderly aside grown slack) : s.Orderly aside [] True where
  sound := orderly.sound
  staged := by
    refine ⟨fun id knows outside => ?_, orderly.staged.progressed⟩
    rw [if_neg List.not_mem_nil]
    exact (orderly.staged.placed id knows outside).loosen
  lined := orderly.lined
  registered := orderly.registered
  configured := orderly.configured

section Actions

variable {s : Scheduler} {id : SeqId}

@[simp]
theorem returns_onCache {α : Type} {act : Action Cache α} {post : α → Scheduler → Prop} :
    (onCache act).Returns s post ↔ act.Returns s.cache fun a c => post a { s with cache := c } := by
  simp [onCache]

@[simp]
theorem returns_look {post : Sequence → Scheduler → Prop} :
    (look id).Returns s post ↔ post (s.cache.sequence id) s := by
  simp [look]

theorem edit_returns {f : Sequence → Sequence} {post : Unit → Scheduler → Prop}
    (knows : s.cache.Knows id) (alike : Cache.Alike (s.cache.sequence id) (f (s.cache.sequence id)))
    (next : ∀ c, s.cache.Noted c id (f (s.cache.sequence id)) → post () { s with cache := c }) :
    (edit id f).Returns s post := by
  simp only [edit, returns_onCache, Cache.returns_edit]
  exact next _ (Cache.noted_edit knows alike)

theorem report_returns {severity : Logging.Severity} {message : String}
    {post : Unit → Scheduler → Prop}
    (next : ∀ journal, post () { s with cache := { s.cache with journal } }) :
    (report severity message).Returns s post := by
  simp only [report, returns_onCache, Cache.returns_report]
  exact next _

end Actions

end Scheduler

end PagedServing
