import PagedServing.Proofs.Pool.Count
import PagedServing.Proofs.Scheduler.Lines
import PagedServing.Scheduler.Planning

/-! # What fits into the pool

The next tokens of running sequences need blocks beside those that the sequences have. One
sequence alone always finds them: the pool has room for the longest sequence.
-/

namespace PagedServing.Scheduler

variable {s : Scheduler} {id : SeqId} {c c' : Cache}

/-- The blocks for a number of tokens, counted on either side. -/
theorem blocksFor_eq (filed : c.Filed) (knows : c.Knows id) (tokens : Nat) :
    c.blocksFor tokens = (c.sequence id).blocksFor tokens := by
  have positive := c.blockSize_pos
  have cast : (tokens : Int) + c.blockSize - 1 = (tokens + c.blockSize - 1 : Nat) := by omega
  rw [Cache.blocksFor, Sequence.blocksFor, filed.sized id knows, cast]
  rfl

theorem growth_nonneg (c : Cache) (id : SeqId) (tokens : Int) : 0 ≤ c.growth id tokens := by
  unfold Cache.growth
  split <;> omega

theorem demand_nonneg (s : Scheduler) : 0 ≤ s.demand :=
  total_map_nonneg fun _ _ => growth_nonneg _ _ _

/-- What another sequence needs does not depend on the one that was worked on. -/
theorem Handled.growth (sound : c.Sound) (handled : c.Handled c' id) {other : SeqId}
    (different : other ≠ id) (tokens : Int) : c'.growth other tokens = c.growth other tokens := by
  rw [Cache.growth_eq handled.sound, Cache.growth_eq sound, handled.others other different,
    Cache.blocksFor, Cache.blocksFor, handled.blockSize]

theorem Handled.growth_next (sound : c.Sound) (handled : c.Handled c' id) {others : List SeqId}
    (absent : id ∉ others) :
    others.map (fun other => c'.growth other ((c'.sequence other).length + 1)) =
      others.map fun other => c.growth other ((c.sequence other).length + 1) := by
  refine List.map_congr_left fun other among => ?_
  have different : other ≠ id := fun same => absent (same ▸ among)
  rw [handled.others other different]
  exact Handled.growth sound handled different _

theorem Handled.freeCount_le (sound : c.Sound) (handled : c.Handled c' id) {fresh : List Int}
    (table : ∀ b ∈ c'.deviceTable id, b ∈ c.deviceTable id ∨ b ∈ fresh) :
    c.device.freeCount ≤ c'.device.freeCount + fresh.length := by
  refine sound.balanced.device.freeCount_le handled.sound.balanced.device handled.size fun b held => ?_
  obtain ⟨other, knows, member⟩ := Cache.exists_holder held
  by_cases same : other = id
  · subst same
    exact (table b member).imp_left (Cache.holders_pos_of_mem handled.knows)
  · left
    have table : c'.deviceTable other = c.deviceTable other := by
      simp only [Cache.deviceTable, handled.swapped other same, handled.others other same]
    exact Cache.holders_pos_of_mem ((handled.knows_iff other).mp knows) (table ▸ member)

/-- All running sequences fit into one batch. -/
structure Roomy (s : Scheduler) : Prop where
  sequences : s.running.length ≤ s.config.maxSequences
  tokens : total (s.running.map fun id => (s.cache.sequence id).uncomputed) ≤
    s.config.maxBatchedTokens
  blocks : s.demand ≤ s.cache.device.freeCount

namespace Orderly

variable {grown : List SeqId} {slack : Prop}

theorem running_of_table (orderly : s.Orderly [] grown slack)
    (device : s.cache.isSwapped id = false) (some : (s.cache.sequence id).table ≠ []) :
    id ∈ s.running := by
  have knows : s.cache.Knows id := by
    by_contra unknown
    exact some (Cache.table_of_unknown unknown)
  have placed := orderly.staged.placed id knows List.not_mem_nil
  have status : (s.cache.sequence id).status = .running := by
    by_contra other
    exact some (placed.bare other device)
  exact orderly.lined.queued_running id knows status List.not_mem_nil

theorem running_of_holder (orderly : s.Orderly [] grown slack) {b : Int}
    (member : b ∈ s.cache.deviceTable id) : id ∈ s.running := by
  cases device : s.cache.isSwapped id with
  | true => simp [Cache.deviceTable_of_swapped device] at member
  | false =>
      rw [Cache.deviceTable_of_device device] at member
      exact orderly.running_of_table device (List.ne_nil_of_mem member)

theorem size_le (orderly : s.Orderly [] grown slack) : s.cache.device.size ≤
    s.cache.device.freeCount + (s.running.flatMap fun id => s.cache.deviceTable id).length := by
  refine orderly.sound.balanced.device.size_le fun b held => ?_
  obtain ⟨id, _, member⟩ := Cache.exists_holder held
  exact List.mem_flatMap.mpr ⟨id, orderly.running_of_holder member, member⟩

theorem blocksFor_le (orderly : s.Orderly [] grown slack) (member : id ∈ s.requests.values) :
    (s.cache.sequence id).blocksFor ((s.cache.sequence id).length + 1) ≤ s.cache.device.size := by
  have short := orderly.registered.short id member List.not_mem_nil
  have bound : s.config.maxLength ≤ s.config.deviceBlocks * s.config.blockSize := Nat.min_le_right _ _
  have positive := s.config.blockSize_pos
  rw [Sequence.blocksFor, orderly.sound.filed.sized id (orderly.knows member),
    orderly.configured.blockSize, orderly.configured.size]
  refine Nat.le_of_lt_succ ((Nat.div_lt_iff_lt_mul positive).mpr ?_)
  rw [Nat.succ_mul]
  omega

theorem demandOf_running (orderly : s.Orderly [] [] slack) (member : id ∈ s.running) :
    ((s.cache.sequence id).table.length : Int) + s.demandOf id =
      (s.cache.sequence id).blocksFor ((s.cache.sequence id).length + 1) := by
  obtain ⟨knows, status⟩ := orderly.lined.running id member
  have most := ((orderly.staged.placed id knows List.not_mem_nil).running status).2.most
  have blocks := blocksFor_eq orderly.sound.filed knows ((s.cache.sequence id).length + 1)
  push_cast at blocks
  rw [demandOf, Cache.growth_eq orderly.sound, sequence, blocks]
  omega

theorem demand_le_of_alone (orderly : s.Orderly [] [] slack) (alone : s.running = [id]) :
    s.demand ≤ s.cache.device.freeCount := by
  have member : id ∈ s.running := by simp [alone]
  have device := orderly.device_of_running member
  have total := orderly.size_le
  have needed := orderly.demandOf_running member
  have most := orderly.blocksFor_le (orderly.mem_values .running member)
  simp only [alone, List.flatMap_cons, List.flatMap_nil, List.append_nil,
    Cache.deviceTable_of_device device] at total
  simp only [demand, alone, List.map_cons, List.map_nil, total_cons, total_nil]
  omega

end Orderly

end PagedServing.Scheduler
