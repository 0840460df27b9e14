import Mathlib.Data.List.Perm.Subperm
import PagedServing.Proofs.Pool.Balance

/-! # Counting blocks

Every block of a balanced pool is free or in use. So the number of free blocks follows from
the blocks that are held, and a pool loses at most as many free blocks as it hands out.
-/

namespace PagedServing.Pool

variable {p q : Pool} {held held' : Int → Nat}

/-- Every block is free or in use. -/
theorem Balanced.free_add_used (balanced : p.Balanced held) :
    p.free.length + p.used.length = p.size := by
  have apart : List.Disjoint p.free p.used := by
    intro b free used
    have := ((balanced.mem_free b).mp free).2
    have := (balanced.mem_used b).mp used
    omega
  have distinct : (p.free ++ p.used).Nodup :=
    balanced.free_nodup.append balanced.used_nodup apart
  have all : ((List.range p.size).map Int.ofNat).Nodup :=
    List.nodup_range.map fun _ _ same => Int.ofNat.inj same
  have same : (p.free ++ p.used).Perm ((List.range p.size).map Int.ofNat) := by
    rw [List.perm_ext_iff_of_nodup distinct all]
    intro b
    rw [List.mem_append, balanced.mem_free, balanced.mem_used, List.mem_map]
    have positive := balanced.has b
    simp only [Has, List.mem_range] at positive ⊢
    constructor
    · intro either
      have inside : 0 ≤ b ∧ b < p.size := either.elim And.left positive
      exact ⟨b.toNat, by omega, by simp only [Int.ofNat_eq_natCast]; omega⟩
    · rintro ⟨k, inside, rfl⟩
      simp only [Int.ofNat_eq_natCast]
      omega
  simpa using same.length_eq

theorem Balanced.free_of_unheld (balanced : p.Balanced held) (unheld : ∀ b, held b = 0) :
    p.freeCount = p.size := by
  have unused : p.used = [] := by
    refine List.eq_nil_iff_forall_not_mem.mpr fun b used => ?_
    have := (balanced.mem_used b).mp used
    have := unheld b
    omega
  simpa [freeCount, unused] using balanced.free_add_used

theorem Balanced.freeCount_le (before : p.Balanced held) (after : q.Balanced held')
    (size : q.size = p.size) {fresh : List Int}
    (taken : ∀ b, 0 < held' b → 0 < held b ∨ b ∈ fresh) :
    p.freeCount ≤ q.freeCount + fresh.length := by
  have among : q.used ⊆ p.used ++ fresh := by
    intro b used
    rw [List.mem_append, before.mem_used]
    exact taken b ((after.mem_used b).mp used)
  have count : q.used.length ≤ p.used.length + fresh.length := by
    simpa using (List.subperm_of_subset after.used_nodup among).length_le
  have total := before.free_add_used
  have total' := after.free_add_used
  unfold freeCount
  omega

theorem Balanced.freeCount_released (before : p.Balanced held) (after : q.Balanced held')
    (size : q.size = p.size) {table sole : List Int} (released : ∀ b, held' b + table.count b = held b)
    (distinct : sole.Nodup) (alone : ∀ b, b ∈ sole ↔ b ∈ table ∧ held b = table.count b) :
    q.freeCount = p.freeCount + sole.length := by
  have apart : List.Disjoint q.used sole := by
    intro b used listed
    have positive := (after.mem_used b).mp used
    have whole := ((alone b).mp listed).2
    have := released b
    omega
  have same : p.used.Perm (q.used ++ sole) := by
    rw [List.perm_ext_iff_of_nodup before.used_nodup (after.used_nodup.append distinct apart)]
    intro b
    have := released b
    rw [List.mem_append, before.mem_used, after.mem_used, alone, ← List.count_pos_iff]
    omega
  have count := same.length_eq
  have total := before.free_add_used
  have total' := after.free_add_used
  rw [List.length_append] at count
  unfold freeCount
  omega

theorem Balanced.size_le (balanced : p.Balanced held) {blocks : List Int}
    (listed : ∀ b, 0 < held b → b ∈ blocks) : p.size ≤ p.freeCount + blocks.length := by
  have among : p.used ⊆ blocks := fun b used => listed b ((balanced.mem_used b).mp used)
  have count := (List.subperm_of_subset balanced.used_nodup among).length_le
  have total := balanced.free_add_used
  unfold freeCount
  omega

theorem nodup_eraseDups (blocks : List Int) : blocks.eraseDups.Nodup := by
  match blocks with
  | [] => exact List.nodup_nil
  | b :: rest =>
      rw [List.eraseDups_cons, List.nodup_cons]
      exact ⟨by simp, nodup_eraseDups _⟩
termination_by blocks.length
decreasing_by exact Nat.lt_succ_of_le (List.length_filter_le _ _)

/-- Every block has as many references as it has places in block tables, and the blocks
    without references are the free ones, each listed once. -/
structure Accounted (p : Pool) (places : List Int) : Prop where
  inside : ∀ b ∈ places, p.Has b
  refs : ∀ b, p.Has b → p.refs b = places.count b
  free_nodup : p.free.Nodup
  mem_free : ∀ b, b ∈ p.free ↔ p.Has b ∧ p.refs b = 0

theorem Balanced.accounted (balanced : p.Balanced held) {places : List Int}
    (counted : ∀ b, places.count b = held b) : p.Accounted places where
  inside b member := balanced.has b (counted b ▸ List.count_pos_iff.mpr member)
  refs b has := by rw [refs_eq, balanced.refs b has, counted]
  free_nodup := balanced.free_nodup
  mem_free b := by
    rw [balanced.mem_free b]
    refine and_congr_right fun has => ?_
    rw [refs_eq, balanced.refs b has]

end PagedServing.Pool
