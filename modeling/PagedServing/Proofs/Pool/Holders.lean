import PagedServing.Proofs.Pool.Balance

/-! # Holders that come and go

A block that is shared or revived gains a holder, a block that is released loses one. The
balance follows, and what the blocks hold stays as it is.
-/

namespace PagedServing.Pool

variable {p q : Pool} {held held' : Int → Nat} {id : Int} {n : Nat}

/-- The block `id` has `n` references now, and stands among the free or the used blocks
    accordingly. All else is as it was. -/
structure Recounted (p q : Pool) (id : Int) (n : Nat) : Prop where
  size : q.size = p.size
  registry : q.registry = p.registry
  entry : ∀ b, 0 ≤ b → q.entry b = if b = id then { p.entry id with refs := n } else p.entry b
  free_nodup : q.free.Nodup
  mem_free : ∀ b, b ∈ q.free ↔ if b = id then n = 0 else b ∈ p.free
  used_nodup : q.used.Nodup
  mem_used : ∀ b, b ∈ q.used ↔ if b = id then 0 < n else b ∈ p.used

theorem Recounted.agrees (recounted : p.Recounted q id n) : p.Agrees q where
  size := recounted.size
  registry := recounted.registry
  hash b natural := by
    rw [recounted.entry b natural]
    split
    · rename_i same
      rw [same]
    · rfl
  tokens b natural := by
    rw [recounted.entry b natural]
    split
    · rename_i same
      rw [same]
    · rfl

theorem Recounted.balanced (recounted : p.Recounted q id n) (balanced : p.Balanced held)
    (has : p.Has id) (count : ∀ b, held' b = if b = id then n else held b) :
    q.Balanced held' where
  has b positive := by
    rw [has_congr recounted.size]
    by_cases same : b = id
    · exact same ▸ has
    · exact balanced.has b (by simpa [count, same] using positive)
  refs b hasB := by
    have hasB := (has_congr recounted.size).mp hasB
    rw [recounted.entry b hasB.1, count]
    split
    · rfl
    · exact balanced.refs b hasB
  free_nodup := recounted.free_nodup
  mem_free b := by
    rw [recounted.mem_free, count, has_congr recounted.size]
    split
    · rename_i same
      simp [same, has]
    · exact balanced.mem_free b
  used_nodup := recounted.used_nodup
  mem_used b := by
    rw [recounted.mem_used, count]
    split
    · rfl
    · exact balanced.mem_used b

theorem shareOne_recounts (balanced : p.Balanced held) (holder : 0 < held id) :
    (shareOne id).Returns p fun _ q => p.Recounted q id (held id + 1) ∧ q.free = p.free := by
  have has := balanced.has id holder
  have refs := balanced.refs id has
  have shared : (p.entry id).refs ≠ 0 := by omega
  simp only [shareOne, Action.returns_bind, Action.returns_get, Action.returns_demand,
    block?_of_has has, Option.some.injEq, exists_eq_left', shared, if_false, Action.returns_set,
    updateBlock_free, and_true]
  constructor
  case size => simp
  case registry => simp
  case entry => exact fun b natural => by rw [entry_updateBlock _ has natural, refs]
  case free_nodup => simpa using balanced.free_nodup
  case mem_free => exact fun b => by grind [updateBlock_free, balanced.mem_free id]
  case used_nodup => simpa using balanced.used_nodup
  case mem_used => exact fun b => by grind [updateBlock_used, balanced.mem_used id]

theorem shareOne_returns (balanced : p.Balanced held) (holder : 0 < held id) :
    (shareOne id).Returns p fun _ q =>
      q.Balanced (fun b => held b + [id].count b) ∧ p.Agrees q ∧ q.free = p.free := by
  refine (shareOne_recounts balanced holder).weaken ?_
  rintro _ q ⟨recounted, free⟩
  exact ⟨recounted.balanced balanced (balanced.has id holder) fun b => by grind, recounted.agrees, free⟩

theorem revive_recounts (balanced : p.Balanced held) (has : p.Has id) (free : held id = 0) :
    (revive id).Returns p fun _ q => p.Recounted q id 1 ∧ q.free = p.free.erase id := by
  have refs := (refs_eq p id).trans ((balanced.refs id has).trans free)
  have listed := (balanced.mem_free id).mpr ⟨has, free⟩
  have place : Offset.resolve p.size id = some id.toNat := resolve_of_has has
  simp only [revive, Action.returns_bind, Action.returns_get, Action.returns_demand, place, refs,
    listed, Option.some.injEq, exists_eq_left', ne_eq, not_true, if_false, Action.returns_set,
    Action.returns_pure, updateBlock_free, and_true]
  let p' := { p with free := p.free.erase id, used := p.used.insert id }
  constructor
  case size => rw [updateBlock_size]; rfl
  case registry => rw [updateBlock_registry]
  case entry => exact fun b natural => entry_updateBlock (p := p') _ has natural
  case free_nodup => simpa [p'] using balanced.free_nodup.erase id
  case mem_free =>
    intro b
    simp only [updateBlock_free, balanced.free_nodup.mem_erase_iff]
    grind
  case used_nodup => simpa [p'] using balanced.used_nodup.insert
  case mem_used =>
    intro b
    simp only [updateBlock_used, List.mem_insert_iff]
    grind

theorem revive_returns (balanced : p.Balanced held) (has : p.Has id) (free : held id = 0) :
    (revive id).Returns p fun _ q => q.Balanced (fun b => held b + [id].count b) ∧
      p.Agrees q ∧ q.freeCount + 1 = p.freeCount := by
  have listed := (balanced.mem_free id).mpr ⟨has, free⟩
  have count : (p.free.erase id).length + 1 = p.free.length := by
    rw [List.length_erase_of_mem listed]
    exact Nat.sub_add_cancel (List.length_pos_of_mem listed)
  refine (revive_recounts balanced has free).weaken ?_
  rintro _ q ⟨recounted, rest⟩
  refine ⟨recounted.balanced balanced has fun b => by grind, recounted.agrees, ?_⟩
  rw [freeCount, rest, count, freeCount]

theorem releaseOne_recounts {rest : Int → Nat}
    (balanced : p.Balanced fun b => rest b + [id].count b) :
    (releaseOne id).Returns p fun _ q => p.Recounted q id (rest id) ∧
      q.free = if rest id = 0 then p.free ++ [id] else p.free := by
  have holder : 0 < rest id + [id].count id := by simp
  have has := balanced.has id holder
  have refs : (p.entry id).refs = rest id + 1 := by simpa using balanced.refs id has
  have used : id ∈ p.used := (balanced.mem_used id).mpr holder
  simp only [releaseOne, Action.returns_bind, Action.returns_get, Action.returns_demand,
    block?_of_has has, Option.some.injEq, exists_eq_left', refs, used, Nat.add_eq_zero_iff,
    Nat.one_ne_zero, and_false, not_true, or_false, if_false, Action.returns_set,
    Nat.add_eq_right]
  let p' := p.updateBlock id fun b => { b with refs := b.refs - 1 }
  have entry : ∀ b, 0 ≤ b →
      p'.entry b = if b = id then { p.entry id with refs := rest id } else p.entry b := by
    intro b natural
    rw [entry_updateBlock _ has natural, refs]
    rfl
  constructor
  · have listed : id ∉ p.free := fun free => by
      have := ((balanced.mem_free id).mp free).2
      omega
    -- the last holder puts the block behind the free ones; otherwise only its count changes
    split
    · constructor
      case size => exact updateBlock_size p id _
      case registry => exact updateBlock_registry p id _
      case entry => exact entry
      case free_nodup =>
        simp only [updateBlock_free]
        exact balanced.free_nodup.append (List.nodup_singleton id) (by simpa using listed)
      case mem_free =>
        intro b
        simp only [updateBlock_free, List.mem_append, List.mem_singleton]
        grind
      case used_nodup => simpa using balanced.used_nodup.erase id
      case mem_used =>
        intro b
        simp only [updateBlock_used, balanced.used_nodup.mem_erase_iff]
        grind
    · constructor
      case size => exact updateBlock_size p id _
      case registry => exact updateBlock_registry p id _
      case entry => exact entry
      case free_nodup => simpa using balanced.free_nodup
      case mem_free => exact fun b => by grind [updateBlock_free]
      case used_nodup => simpa using balanced.used_nodup
      case mem_used => exact fun b => by grind [updateBlock_used]
  · split <;> simp

theorem releaseOne_returns {rest : Int → Nat}
    (balanced : p.Balanced fun b => rest b + [id].count b) :
    (releaseOne id).Returns p fun _ q => q.Balanced rest ∧ p.Agrees q := by
  refine (releaseOne_recounts balanced).weaken ?_
  rintro _ q ⟨recounted, -⟩
  have has := balanced.has id (by simp)
  exact ⟨recounted.balanced balanced has fun b => by grind, recounted.agrees⟩

theorem release_returns (ids : List Int) :
    ∀ {p : Pool} {rest : Int → Nat}, p.Balanced (fun b => rest b + ids.count b) →
      (release ids).Returns p fun _ q => q.Balanced rest ∧ p.Agrees q := by
  induction ids with
  | nil =>
      intro p rest balanced
      simpa [release] using ⟨balanced.congr fun b => by simp, Agrees.refl p⟩
  | cons id ids ih =>
      intro p rest balanced
      have step : p.Balanced fun b => (rest b + ids.count b) + [id].count b :=
        balanced.congr fun b => by simp only [List.count_cons, List.count_nil]; omega
      rw [release, Action.returns_forM_cons]
      refine (releaseOne_returns step).weaken ?_
      rintro _ q ⟨balancedQ, agrees⟩
      refine (ih balancedQ).weaken ?_
      rintro _ r ⟨balancedR, agreesR⟩
      exact ⟨balancedR, agrees.trans agreesR⟩

/-- Blocks lose as many holders as they are released. -/
theorem Balanced.release (balanced : p.Balanced held) {ids : List Int}
    (among : ∀ b, ids.count b ≤ held b) :
    (release ids).Returns p fun _ q => q.Balanced (fun b => held b - ids.count b) ∧ p.Agrees q :=
  release_returns ids (balanced.congr fun b => Nat.sub_add_cancel (among b))

end PagedServing.Pool
