import Mathlib.Data.List.Nodup
import PagedServing.Proofs.Pool.Entry
import PagedServing.Proofs.Returns

/-! # Balanced pools

A pool is balanced against a count of holders if every block has as many references as it
has holders, and the blocks that nobody holds are exactly the free ones, each listed once.
Handing blocks out and taking them back keeps the balance, and does nothing else to what
the blocks hold.
-/

namespace PagedServing.Pool

/-- The references of a pool agree with the number of holders of every block. -/
structure Balanced (p : Pool) (held : Int → Nat) : Prop where
  has : ∀ b, 0 < held b → p.Has b
  refs : ∀ b, p.Has b → (p.entry b).refs = held b
  free_nodup : p.free.Nodup
  mem_free : ∀ b, b ∈ p.free ↔ p.Has b ∧ held b = 0
  used_nodup : p.used.Nodup
  mem_used : ∀ b, b ∈ p.used ↔ 0 < held b

/-- What the blocks hold is the same in both pools; only who refers to them may differ. -/
structure Agrees (p q : Pool) : Prop where
  size : q.size = p.size
  registry : q.registry = p.registry
  hash : ∀ b, 0 ≤ b → (q.entry b).hash = (p.entry b).hash
  tokens : ∀ b, 0 ≤ b → (q.entry b).tokens = (p.entry b).tokens

/-- The blocks `ids` were handed out for new content, and the rest was left alone. -/
structure Renewed (p q : Pool) (ids : List Int) : Prop where
  size : q.size = p.size
  has : ∀ b ∈ ids, p.Has b
  kept : ∀ b, 0 ≤ b → b ∉ ids → q.entry b = p.entry b
  reset : ∀ b ∈ ids, q.entry b = { refs := 1 }
  registry : ∀ h b, q.registry.get? h = some b ↔ p.registry.get? h = some b ∧
    (b ∈ ids → (p.entry b).hash ≠ h ∨ h = noHash)

variable {p q r : Pool} {held held' : Int → Nat}

theorem Agrees.refl (p : Pool) : p.Agrees p :=
  ⟨rfl, rfl, fun _ _ => rfl, fun _ _ => rfl⟩

theorem Agrees.trans (first : p.Agrees q) (second : q.Agrees r) : p.Agrees r where
  size := second.size.trans first.size
  registry := second.registry.trans first.registry
  hash b natural := (second.hash b natural).trans (first.hash b natural)
  tokens b natural := (second.tokens b natural).trans (first.tokens b natural)

theorem has_congr (same : q.size = p.size) {b : Int} : q.Has b ↔ p.Has b := by
  simp only [Has, same]

theorem Renewed.refl (p : Pool) : p.Renewed p [] where
  size := rfl
  has := by simp
  kept _ _ _ := rfl
  reset := by simp
  registry := by simp

theorem Renewed.append {ids ids' : List Int} (first : p.Renewed q ids)
    (second : q.Renewed r ids') (apart : ∀ b ∈ ids', b ∉ ids) : p.Renewed r (ids ++ ids') where
  size := second.size.trans first.size
  has b member := by
    rcases List.mem_append.mp member with earlier | later
    · exact first.has b earlier
    · exact (has_congr first.size).mp (second.has b later)
  kept b natural other := by
    obtain ⟨outside, outside'⟩ := not_or.mp (mt List.mem_append.mpr other)
    exact (second.kept b natural outside').trans (first.kept b natural outside)
  reset b member := by
    by_cases later : b ∈ ids'
    · exact second.reset b later
    · have earlier : b ∈ ids := (List.mem_append.mp member).resolve_right later
      rw [second.kept b (first.has b earlier).1 later]
      exact first.reset b earlier
  registry h b := by
    rw [second.registry, first.registry, List.mem_append]
    by_cases later : b ∈ ids'
    · have outside := apart b later
      simp [later, outside, first.kept b (second.has b later).1 outside]
    · simp [later]

namespace Balanced

theorem congr (balanced : p.Balanced held) (same : ∀ b, held' b = held b) :
    p.Balanced held' := by
  rwa [funext same]

theorem has_free (balanced : p.Balanced held) {b : Int} (free : b ∈ p.free) : p.Has b :=
  ((balanced.mem_free b).mp free).1

end Balanced

theorem entry_ofSize {count blockSize : Nat} {b : Int} (has : (ofSize count blockSize).Has b) :
    (ofSize count blockSize).entry b = {} := by
  have inside : b.toNat < count := by
    have := has.1
    have := has.2
    simp only [ofSize, size, List.length_replicate] at this
    omega
  have empty : (ofSize count blockSize).blocks[b.toNat]? = some {} := by simp [ofSize, inside]
  simp [entry, block?, Offset.get?, resolve_of_has has, empty]

theorem eq_ofSize_of_created {count blockSize : Int} (created : create count blockSize = .ok p) :
    0 < count ∧ p = ofSize count.toNat blockSize.toNat := by
  unfold create at created
  split at created
  · cases created
  · split at created
    · cases created
    · exact ⟨by omega, (Except.ok.inj created).symm⟩

theorem ofSize_balanced (count blockSize : Nat) :
    (ofSize count blockSize).Balanced fun _ => 0 where
  has b positive := absurd positive (Nat.lt_irrefl 0)
  refs b has := by rw [entry_ofSize has]
  free_nodup := List.nodup_range.map fun _ _ same => Int.ofNat.inj same
  mem_free b := by
    simp only [ofSize, List.mem_map, List.mem_range, Has, size, List.length_replicate]
    constructor
    · rintro ⟨k, inside, rfl⟩
      exact ⟨⟨Int.natCast_nonneg k, Int.ofNat_lt.mpr inside⟩, trivial⟩
    · rintro ⟨⟨natural, inside⟩, -⟩
      exact ⟨b.toNat, by omega, Int.toNat_of_nonneg natural⟩
  used_nodup := List.nodup_nil
  mem_used b := by simp [ofSize]

/-- Handing out the oldest free block. -/
theorem Balanced.claim (balanced : p.Balanced held) {id : Int} {rest : List Int}
    (free : p.free = id :: rest) :
    ({ p with free := rest }.claim id).Balanced fun b => held b + [id].count b := by
  have oldest : id ∈ p.free := by simp [free]
  obtain ⟨has, unheld⟩ := (balanced.mem_free id).mp oldest
  have distinct := free ▸ balanced.free_nodup
  obtain ⟨absent, restDistinct⟩ := List.nodup_cons.mp distinct
  have hasRest : { p with free := rest }.Has id := has
  have hasClaim : ∀ b, ({ p with free := rest }.claim id).Has b ↔ p.Has b := by
    intro b
    simp only [Has, claim_size]
    rfl
  constructor
  case has =>
    intro b positive
    rw [hasClaim]
    by_cases same : b = id
    · exact same ▸ has
    · exact balanced.has b (by simpa [Ne.symm same] using positive)
  -- the block had no holder, so it is reset to one
  case refs =>
    intro b hasB
    have hasB := (hasClaim b).mp hasB
    rw [entry_claim hasRest hasB.1]
    split
    · rename_i same
      simp [same, unheld]
    · rename_i different
      rw [entry_congr (q := { p with free := rest }) (p := p) rfl, balanced.refs b hasB]
      simp [Ne.symm different]
  case free_nodup => simpa using restDistinct
  case mem_free =>
    intro b
    have before := balanced.mem_free b
    rw [hasClaim, claim_free]
    by_cases same : b = id
    · simp [same, absent]
    · simpa [free, same, Ne.symm same] using before
  case used_nodup =>
    simpa using balanced.used_nodup.insert
  case mem_used =>
    intro b
    by_cases same : b = id
    · simp [same]
    · simpa [same, Ne.symm same] using balanced.mem_used b

theorem claim_renewed {id : Int} (has : p.Has id) (free : List Int) :
    p.Renewed ({ p with free }.claim id) [id] where
  size := claim_size _ id
  has b member := by
    obtain rfl := List.mem_singleton.mp member
    exact has
  kept b natural other := by
    rw [entry_claim (p := { p with free }) has natural, if_neg (by simpa using other)]
    rfl
  reset b member := by
    obtain rfl := List.mem_singleton.mp member
    rw [entry_claim (p := { p with free }) has has.1, if_pos rfl]
  registry h b := by
    have same : { p with free }.entry id = p.entry id := rfl
    rw [claim_get? (p := { p with free }) has, same]
    grind

/-- Handing out the oldest free blocks one after the other. -/
theorem foldl_claim (ids rest : List Int) :
    ∀ {p : Pool} {held : Int → Nat}, p.free = ids ++ rest → p.Balanced held →
      (ids.foldl claim { p with free := rest }).Balanced (fun b => held b + ids.count b) ∧
      p.Renewed (ids.foldl claim { p with free := rest }) ids ∧
      (ids.foldl claim { p with free := rest }).free = rest := by
  induction ids with
  | nil =>
      intro p held free balanced
      obtain rfl : p.free = rest := free
      exact ⟨balanced.congr fun b => by simp, .refl _, rfl⟩
  | cons id ids ih =>
      intro p held free balanced
      have has : p.Has id := balanced.has_free (by simp [free])
      -- claiming leaves the free list alone, so the first claim may as well come with its tail
      let q := { p with free := ids ++ rest }.claim id
      have start : { p with free := rest }.claim id = { q with free := rest } := by
        simp only [q, claim_withFree]
      have claimed : q.Balanced fun b => held b + [id].count b := balanced.claim free
      obtain ⟨balancedAll, renewed, freeAll⟩ := ih (p := q) (claim_free _ id) claimed
      rw [List.foldl_cons, start]
      refine ⟨balancedAll.congr fun b => ?_, ?_, freeAll⟩
      · simp only [List.count_cons, List.count_nil]
        omega
      · have first : p.Renewed q [id] := claim_renewed has _
        refine first.append renewed fun b member => ?_
        have distinct := free ▸ balanced.free_nodup
        have absent : id ∉ ids ++ rest := (List.nodup_cons.mp distinct).1
        rintro same
        obtain rfl := List.mem_singleton.mp same
        exact absent (List.mem_append_left rest member)

theorem allocate_returns (balanced : p.Balanced held) {n : Int} (natural : 0 ≤ n)
    (enough : n ≤ p.freeCount) :
    (allocate n).Returns p fun ids q => ids = p.free.take n.toNat ∧
      q.Balanced (fun b => held b + ids.count b) ∧ p.Renewed q ids ∧
      q.free = p.free.drop n.toNat := by
  have split : p.free = p.free.take n.toNat ++ p.free.drop n.toNat := by simp
  have all := foldl_claim _ _ split balanced
  simpa [allocate, Int.not_lt.mpr natural, Int.not_lt.mpr enough] using all

theorem allocateOne_takes (balanced : p.Balanced held) (enough : 0 < p.freeCount) :
    allocateOne.Returns p fun id q => p.free = id :: q.free ∧
      q.Balanced (fun b => held b + [id].count b) ∧ p.Renewed q [id] := by
  unfold allocateOne
  cases free : p.free with
  | nil => simp [freeCount, free] at enough
  | cons id rest =>
      have has : p.Has id := balanced.has_free (by simp [free])
      simpa [free] using ⟨balanced.claim free, claim_renewed has rest⟩

theorem allocateOne_returns (balanced : p.Balanced held) (enough : 0 < p.freeCount) :
    allocateOne.Returns p fun id q => q.Balanced (fun b => held b + [id].count b) ∧
      p.Renewed q [id] ∧ q.freeCount + 1 = p.freeCount ∧ id ∈ p.free := by
  refine (allocateOne_takes balanced enough).weaken ?_
  rintro id q ⟨free, balanced', renewed⟩
  exact ⟨balanced', renewed, by simp [freeCount, free], by simp [free]⟩

end PagedServing.Pool
