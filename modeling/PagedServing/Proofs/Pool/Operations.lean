import PagedServing.Proofs.Pool.Labels
import PagedServing.Proofs.Yields

/-! # Pools in use

The operations of a pool are carried out in any order and with any numbers, and each may return or
meet a fault, also half way through a list of blocks. In every state that is reached, the free list
and the blocks in use share out the blocks of the pool between them, and the free blocks are those
without references.
-/

namespace PagedServing.Pool

variable {p q : Pool} {held : Int → Nat} {id id' : Int}

/-- What is done to a pool. -/
inductive Operation where
  /-- Blocks are handed out. -/
  | allocate (count : Int)
  /-- Blocks lose a reference each. -/
  | release (ids : List Int)
  /-- Blocks gain a reference each. -/
  | share (ids : List Int)
  | revive (id : Int)
  | register (id hash : Int) (tokens : List Int)
  | lookup (hash : Int) (tokens : List Int)

/-- Carry out an operation. -/
def Operation.run : Operation → Action Pool Unit
  | allocate count => discard (Pool.allocate count)
  | release ids => Pool.release ids
  | share ids => Pool.share ids
  | revive id => discard (Pool.revive id)
  | register id hash tokens => Pool.register id hash tokens
  | lookup hash tokens => discard ((·.lookup? hash tokens) <$> get)

/-- The pool after some operations. One that meets a fault leaves what it has reached. -/
def operated (p : Pool) (operations : List Operation) : Pool :=
  operations.foldl (fun p operation => operation.run.after p) p

theorem operated_induction {inv : Pool → Prop}
    (each : ∀ operation : Operation, operation.run.Preserves inv) (start : inv p)
    (operations : List Operation) : inv (p.operated operations) := by
  induction operations generalizing p with
  | nil => exact start
  | cons operation rest ih => exact ih ((each operation).after start)

/-- Two numbers name the same block, or neither names one. -/
def Alias (p : Pool) (id id' : Int) : Prop :=
  Offset.resolve p.size id = Offset.resolve p.size id'

theorem Alias.block? (same : p.Alias id id') : p.block? id = p.block? id' :=
  congrArg (fun place => place.bind (p.blocks[·]?)) same

theorem Alias.updateBlock (same : p.Alias id id') (f : Block → Block) :
    p.updateBlock id f = p.updateBlock id' f := by
  have same : Offset.resolve p.blocks.length id = Offset.resolve p.blocks.length id' := same
  rw [Pool.updateBlock, Pool.updateBlock, same]

theorem exists_has {b : Block} (named : p.block? id = some b) :
    ∃ own, p.Has own ∧ p.Alias id own ∧ p.entry own = b := by
  obtain ⟨place, resolved, found⟩ := Option.bind_eq_some_iff.mp named
  have inside := Offset.resolve_lt resolved
  have has : p.Has place := ⟨Int.natCast_nonneg place, Int.ofNat_lt.mpr inside⟩
  have same : p.Alias id place := resolved.trans (Offset.resolve_ofNat inside).symm
  refine ⟨place, has, same, ?_⟩
  rw [entry, ← same.block?, named, Option.getD_some]

instance (p : Pool) (id id' : Int) : Decidable (p.Alias id id') :=
  inferInstanceAs (Decidable (_ = _))

/-- A change is seen under every number of the block. -/
theorem block?_updateBlock (p : Pool) (id id' : Int) (f : Block → Block) :
    (p.updateBlock id f).block? id' =
      if p.Alias id' id then (p.block? id').map f else p.block? id' := by
  unfold Pool.updateBlock
  split
  · rename_i place resolved
    have named : p.Alias id' id ↔ Offset.resolve p.blocks.length id' = some place := by
      rw [Alias, size, resolved]
    simp only [Pool.block?, Offset.get?, List.length_modify, named]
    cases resolved' : Offset.resolve p.blocks.length id' with
    | none => simp
    | some place' =>
        by_cases same : place' = place
        · simp [same]
        · simp [same, Ne.symm same]
  · rename_i nowhere
    split
    · rename_i same
      have same : Offset.resolve p.blocks.length id' = none := same.trans nowhere
      simp [Pool.block?, Offset.get?, same]
    · rfl

/-- The pool has `count` blocks, and is balanced against their holders, whoever they are. -/
structure Sound (count : Nat) (p : Pool) : Prop where
  size : p.size = count
  balanced : ∃ held, p.Balanced held

variable {count : Nat}

/-- Blocks are handed out, the oldest free ones first, or nothing happens. -/
theorem allocate_decides (balanced : p.Balanced held) (n : Int) : (allocate n).Yields p
    (fun ids q => (0 ≤ n ∧ n ≤ p.freeCount) ∧ p.free = ids ++ q.free ∧ ids.length = n ∧
      q.Balanced (fun b => held b + ids.count b) ∧ p.Renewed q ids)
    fun fault q => q = p ∧ (n < 0 ∧ fault = .negativeCount n ∨
      0 ≤ n ∧ p.freeCount < n ∧ fault = .outOfBlocks n p.freeCount) := by
  by_cases natural : 0 ≤ n
  · by_cases enough : n ≤ p.freeCount
    · refine ((allocate_returns balanced natural enough).weaken ?_).yields
      rintro ids q ⟨taken, balanced', renewed, rest⟩
      refine ⟨⟨natural, enough⟩, ?_, ?_, balanced', renewed⟩
      · rw [taken, rest, List.take_append_drop]
      · have among : n.toNat ≤ p.free.length := Int.toNat_le.mpr enough
        rw [taken, List.length_take, Nat.min_eq_left among, Int.toNat_of_nonneg natural]
    · have few : (p.freeCount : Int) < n := Int.not_le.mp enough
      have some : ¬ n < 0 := Int.not_lt.mpr natural
      simp [allocate, few, some, natural]
  · have none : n < 0 := Int.not_le.mp natural
    simp [allocate, none]

theorem allocate_preserves (n : Int) : (allocate n).Preserves (Sound count) := by
  rintro p sound
  have ⟨size, held, balanced⟩ := sound
  refine (allocate_decides balanced n).weaken ?_ ?_
  · rintro ids q ⟨-, -, -, balanced', renewed⟩
    exact ⟨renewed.size.trans size, _, balanced'⟩
  · rintro _ _ ⟨rfl, -⟩
    exact ⟨size, held, balanced⟩

theorem shareOne_preserves (id : Int) : (shareOne id).Preserves (Sound count) := by
  rintro p sound
  have ⟨size, held, balanced⟩ := sound
  simp only [shareOne, Action.yields_bind, Action.yields_get, Action.yields_demand]
  refine ⟨fun b named => ?_, fun _ => sound⟩
  split
  · exact sound
  · rename_i shared
    obtain ⟨own, has, same, rfl⟩ := exists_has named
    have holder : 0 < held own := balanced.refs own has ▸ Nat.pos_of_ne_zero shared
    -- a number that counts from the last block does what the block's own number does
    have returns := shareOne_returns balanced holder
    simp only [shareOne, Action.returns_bind, Action.returns_get, Action.returns_demand,
      block?_of_has has, Option.some.injEq, exists_eq_left', shared, if_false,
      Action.returns_set] at returns
    rw [← same.updateBlock] at returns
    exact ⟨(updateBlock_size p id _).trans size, _, returns.1⟩

theorem releaseOne_preserves (id : Int) : (releaseOne id).Preserves (Sound count) := by
  rintro p sound
  have ⟨size, held, balanced⟩ := sound
  by_cases used : id ∈ p.used
  · have holder : 0 < held id := (balanced.mem_used id).mp used
    have split : p.Balanced fun b => (held b - [id].count b) + [id].count b := by
      refine balanced.congr fun b => Nat.sub_add_cancel ?_
      by_cases same : b = id
      · rw [same, List.count_singleton_self]
        exact holder
      · simp [Ne.symm same]
    refine ((releaseOne_returns split).weaken ?_).yields
    rintro _ q ⟨balanced', agrees⟩
    exact ⟨agrees.size.trans size, _, balanced'⟩
  · simp only [releaseOne, Action.yields_bind, Action.yields_get, Action.yields_demand, used,
      not_false_eq_true, or_true, if_true]
    exact ⟨fun _ _ => sound, fun _ => sound⟩

theorem revive_preserves (id : Int) : (revive id).Preserves (Sound count) := by
  rintro p sound
  have ⟨size, held, balanced⟩ := sound
  by_cases free : id ∈ p.free
  · obtain ⟨has, unheld⟩ := (balanced.mem_free id).mp free
    refine ((revive_returns balanced has unheld).weaken ?_).yields
    rintro _ q ⟨balanced', agrees, -⟩
    exact ⟨agrees.size.trans size, _, balanced'⟩
  · simp only [revive, Action.yields_bind, Action.yields_get, Action.yields_demand, free,
      not_false_eq_true, if_true]
    refine ⟨fun _ _ => ?_, fun _ => sound⟩
    split
    all_goals exact sound

theorem register_preserves (id hash : Int) (tokens : List Int) :
    (register id hash tokens).Preserves (Sound count) := by
  rintro p sound
  have ⟨size, held, balanced⟩ := sound
  simp only [register, Action.yields_bind, Action.yields_get, Action.yields_demand, Action.yields_set]
  refine ⟨fun b named => ?_, fun _ => sound⟩
  obtain ⟨own, has, same, rfl⟩ := exists_has named
  have refs : ∀ b, 0 ≤ b →
      ((p.updateBlock id fun x => { x with hash, tokens }).entry b).refs = (p.entry b).refs := by
    intro b natural
    rw [same.updateBlock, entry_updateBlock _ has natural]
    split
    · rename_i same
      rw [same]
    · rfl
  exact ⟨(updateBlock_size p id _).trans size, held, balanced.relabelled (updateBlock_size p id _)
    (updateBlock_free p id _) (updateBlock_used p id _) refs⟩

theorem Operation.preserves (operation : Operation) : operation.run.Preserves (Sound count) := by
  cases operation with
  | allocate n => exact (allocate_preserves n).map
  | release ids => exact .forM releaseOne_preserves ids
  | share ids => exact .forM shareOne_preserves ids
  | revive id => exact (revive_preserves id).map
  | register id hash tokens => exact register_preserves id hash tokens
  | lookup hash tokens => exact Action.Preserves.get.map.map

theorem sound_of_created {count blockSize : Int} (creation : create count blockSize = .ok p) :
    p.Sound count.toNat ∧ 0 < count := by
  obtain ⟨positive, rfl⟩ := eq_ofSize_of_created creation
  exact ⟨⟨by simp [ofSize, size], _, ofSize_balanced _ _⟩, positive⟩

/-- The free list and the blocks in use share out `count` blocks between them. -/
structure Partitioned (p : Pool) (count : Int) : Prop where
  free_nodup : p.free.Nodup
  used_nodup : p.used.Nodup
  apart : List.Disjoint p.free p.used
  covered : ∀ b, b ∈ p.free ∨ b ∈ p.used ↔ 0 ≤ b ∧ b < count
  unreferenced : ∀ b, 0 ≤ b → b < count → (p.refs b = 0 ↔ b ∈ p.free)

/-- As many blocks are handed out as are asked for, from the front of the free list, or nothing
    happens because there are fewer. -/
structure HandsOut (p : Pool) (n : Int) : Prop where
  yields : (allocate n).Yields p
    (fun ids q => ids.length = n ∧ ids.Nodup ∧ p.free = ids ++ q.free ∧ ∀ id ∈ ids, q.refs id = 1)
    fun _ q => q = p ∧ (n < 0 ∨ p.freeCount < n)

theorem Sound.partitioned {count : Int} (sound : p.Sound count.toNat) (positive : 0 < count) :
    p.Partitioned count := by
  obtain ⟨size, held, balanced⟩ := sound
  have has : ∀ b, p.Has b ↔ 0 ≤ b ∧ b < count := by
    intro b
    rw [Has, size, Int.toNat_of_nonneg (Int.le_of_lt positive)]
  constructor
  case free_nodup => exact balanced.free_nodup
  case used_nodup => exact balanced.used_nodup
  case apart =>
    intro b free used
    have := ((balanced.mem_free b).mp free).2
    have := (balanced.mem_used b).mp used
    omega
  case covered =>
    intro b
    rw [← has, balanced.mem_free, balanced.mem_used]
    constructor
    · exact fun either => either.elim And.left (balanced.has b)
    · intro inside
      rcases Nat.eq_zero_or_pos (held b) with unheld | holder
      · exact Or.inl ⟨inside, unheld⟩
      · exact Or.inr holder
  case unreferenced =>
    intro b natural inside
    have inside := (has b).mpr ⟨natural, inside⟩
    rw [refs_eq, balanced.refs b inside, balanced.mem_free]
    exact (and_iff_right inside).symm

theorem Sound.handsOut (sound : p.Sound count) (n : Int) : p.HandsOut n := by
  obtain ⟨-, held, balanced⟩ := sound
  refine ⟨(allocate_decides balanced n).weaken ?_ ?_⟩
  · rintro ids q ⟨-, free, length, -, renewed⟩
    have distinct := free ▸ balanced.free_nodup
    refine ⟨length, distinct.of_append_left, free, fun id member => ?_⟩
    rw [refs_eq, renewed.reset id member]
  · rintro fault q ⟨same, ⟨negative, -⟩ | ⟨-, few, -⟩⟩
    · exact ⟨same, Or.inl negative⟩
    · exact ⟨same, Or.inr few⟩

theorem releaseOne_takes (p : Pool) (id : Int) :
    (releaseOne id).Ensures p fun _ q => q.refs id + 1 = p.refs id := by
  simp only [releaseOne, Action.ensures_bind, Action.ensures_get, Action.ensures_demand]
  intro b named
  split
  · exact Action.ensures_throw
  · rename_i held
    obtain ⟨shared, -⟩ := not_or.mp held
    have refs : (p.updateBlock id fun b => { b with refs := b.refs - 1 }).refs id + 1 = p.refs id := by
      simp only [Pool.refs, block?_updateBlock, named]
      simp only [Alias, if_true, Option.map_some]
      exact Nat.succ_pred_eq_of_ne_zero shared
    simp only [Action.ensures_set]
    split
    · exact refs
    · exact refs

/-- Whatever is done with a pool, its blocks are free or in use, and those without references are
    free. Blocks are handed out all together or not at all. A block without references loses none,
    so a count that could go below zero never does. -/
theorem operated_partitioned {count blockSize : Int} {created : Pool}
    (creation : create count blockSize = .ok created) (operations : List Operation) :
    (created.operated operations).Partitioned count ∧
      (∀ n, (created.operated operations).HandsOut n) ∧
      ∀ id, (releaseOne id).Ensures (created.operated operations) fun _ q =>
        q.refs id + 1 = (created.operated operations).refs id := by
  obtain ⟨start, positive⟩ := sound_of_created creation
  have sound := operated_induction Operation.preserves start operations
  exact ⟨sound.partitioned positive, sound.handsOut, releaseOne_takes _⟩

/-- Lists with repetitions, with numbers that count from the last block and with numbers that name
    none: the lists are worked off up to the first fault. -/
def mishandled : List Operation :=
  [.allocate 2, .share [0, -3, 7, 1], .release [1, -3, 0], .revive (-2), .revive 1, .allocate 5,
    .register (-1) 4 [9], .lookup 4 [9], .release [0, 0, 0, 0, 1]]

theorem operated_partitioned_mishandled :
    create 3 2 = .ok (ofSize 3 2) ∧ ((ofSize 3 2).operated mishandled).Partitioned 3 ∧
      ((ofSize 3 2).operated mishandled).free = [2, 0] ∧
      ((ofSize 3 2).operated mishandled).HandsOut 2 := by
  have creation : create 3 2 = .ok (ofSize 3 2) := rfl
  obtain ⟨partitioned, handsOut, -⟩ := operated_partitioned creation mishandled
  exact ⟨creation, partitioned, by decide +kernel, handsOut 2⟩

end PagedServing.Pool
