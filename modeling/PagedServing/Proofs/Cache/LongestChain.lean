import PagedServing.Proofs.Cache.Tidiness
import PagedServing.Proofs.Memory.Collisions

/-! # The longest chain

With sharing, a sequence gets the blocks that the device still holds for its beginning, up to the
first one that is missing. The others are the oldest free blocks among those that it does not get
anyway, so no block is overwritten that the same sequence could have used.
-/

namespace PagedServing

namespace Pool

variable {p q : Pool} {h b : Int} {tokens : List Int}

theorem Findable.lookup?_eq_some_iff (findable : p.Findable) :
    p.lookup? h tokens = some b ↔ p.registry.get? h = some b ∧ (p.entry b).tokens = tokens := by
  rw [Pool.lookup?_eq_some_iff]
  refine and_congr_right fun found => ?_
  have has := findable h b found
  have natural : b ≠ -1 := by
    have := has.1
    omega
  simp [block?_of_has has, natural]

end Pool

namespace Cache

variable {c c' c'' : Cache} {id : SeqId} {chain chain' : Chain} {k : Nat} {p q : Pool}
  {hits fresh : List Int} {b : Int}

/-- The device block that still holds the block `i` of a sequence. Only a full block is held. -/
def cachedAt (c : Cache) (id : SeqId) (i : Nat) : Option Int :=
  if (i + 1) * c.blockSize ≤ (c.sequence id).length then
    c.device.lookup? (c.hashOf id (i + 1)) (c.blockAt id i)
  else none

theorem cachedAt_eq_some (tallied : c.Tallied) {i : Nat} (cached : c.cachedAt id i = some b) :
    (i + 1) * c.blockSize ≤ (c.sequence id).length ∧
      c.device.registry.get? (c.hashOf id (i + 1)) = some b := by
  unfold cachedAt at cached
  split at cached
  · exact ⟨‹_›, (tallied.findable.lookup?_eq_some_iff.mp cached).1⟩
  · cases cached

theorem cachedAt_injective (tallied : c.Tallied) (labelled : c.Labelled) (free : c.CollisionFree)
    (knows : c.Knows id) (fits : ∀ t ∈ (c.sequence id).tokens, tokenFits t = true) {i i' : Nat}
    (cached : c.cachedAt id i = some b) (cached' : c.cachedAt id i' = some b) : i = i' := by
  obtain ⟨full, found⟩ := cachedAt_eq_some tallied cached
  obtain ⟨full', found'⟩ := cachedAt_eq_some tallied cached'
  have same := (labelled.coherent _ _ found).2.1.symm.trans (labelled.coherent _ _ found').2.1
  exact (free.tokens_unique fits fits ⟨knows, full⟩ ⟨knows, full'⟩ same).1

/-- The blocks `hits` hold the first blocks of a sequence, and got one more reference each. The blocks
    `fresh` were handed out for the next ones, and nothing else happened to the pool. -/
structure Split (c : Cache) (id : SeqId) (p : Pool) (hits fresh : List Int) : Prop where
  cached : (List.range hits.length).map (c.cachedAt id) = hits.map some
  distinct : (hits ++ fresh).Nodup
  /-- Those free blocks that are not among the hits are handed out in their order. -/
  oldest : c.device.free.filter (· ∉ hits) = fresh ++ p.free
  shared : ∀ b ∈ hits, p.entry b = { c.device.entry b with refs := (c.device.entry b).refs + 1 }
  reset : ∀ b ∈ fresh, p.entry b = { refs := 1 }
  others : ∀ b, 0 ≤ b → b ∉ hits ++ fresh → p.entry b = c.device.entry b
  registry : ∀ h b, p.registry.get? h = some b ↔ c.device.registry.get? h = some b ∧ b ∉ fresh

namespace Split

theorem start (c : Cache) (id : SeqId) : c.Split id c.device [] [] where
  cached := rfl
  distinct := List.nodup_nil
  oldest := by simp
  shared _ member := absurd member List.not_mem_nil
  reset _ member := absurd member List.not_mem_nil
  others _ _ _ := rfl
  registry := by simp

theorem cachedAt_of_mem (split : c.Split id p hits fresh) (member : b ∈ hits) :
    ∃ i < hits.length, c.cachedAt id i = some b := by
  have listed : some b ∈ hits.map some := List.mem_map_of_mem member
  rw [← split.cached] at listed
  obtain ⟨i, inside, cached⟩ := List.mem_map.mp listed
  exact ⟨i, List.mem_range.mp inside, cached⟩

theorem lookup? (split : c.Split id p hits []) (findable : p.Findable)
    (findable' : c.device.Findable) (h : Int) (tokens : List Int) :
    p.lookup? h tokens = c.device.lookup? h tokens := by
  refine Option.ext fun b => ?_
  rw [findable.lookup?_eq_some_iff, findable'.lookup?_eq_some_iff, split.registry h b]
  simp only [List.not_mem_nil, not_false_eq_true, and_true]
  refine and_congr_right fun found => ?_
  have inscribed : (p.entry b).tokens = (c.device.entry b).tokens := by
    by_cases member : b ∈ hits
    · rw [split.shared b member]
    · rw [split.others b (findable' h b found).1 (by simpa using member)]
  rw [inscribed]

theorem hit (split : c.Split id p hits []) (free : c.device.free.Nodup) (kept : p.Kept q b)
    (cached : c.cachedAt id hits.length = some b) (new : b ∉ hits)
    (natural : ∀ b' ∈ hits, 0 ≤ b') : c.Split id q (hits ++ [b]) [] := by
  have entry := kept.recounted.entry
  constructor
  case cached =>
    rw [List.length_append, List.length_singleton, List.range_succ, List.map_append, split.cached,
      List.map_append, List.map_singleton, cached, List.map_singleton]
  case distinct =>
    have distinct := split.distinct
    rw [List.append_nil] at distinct ⊢
    exact distinct.append (List.nodup_singleton b) (by simpa using new)
  case oldest =>
    have oldest := split.oldest
    rw [List.nil_append] at oldest ⊢
    rw [kept.free, ← oldest, (free.filter _).erase_eq_filter, List.filter_filter]
    refine List.filter_congr fun x _ => Bool.eq_iff_iff.mpr ?_
    simp [and_comm, not_or]
  case shared =>
    intro b' member
    rcases List.mem_append.mp member with earlier | last
    · have other : b' ≠ b := by
        rintro rfl
        exact new earlier
      rw [entry b' (natural b' earlier), if_neg other, split.shared b' earlier]
    · obtain rfl := List.mem_singleton.mp last
      rw [entry b' kept.has.1, if_pos rfl, split.others b' kept.has.1 (by simpa using new)]
  case reset => exact fun _ member => absurd member List.not_mem_nil
  case others =>
    intro b' natural' other
    simp only [List.append_nil, List.mem_append, List.mem_singleton, not_or] at other
    rw [entry b' natural', if_neg other.2, split.others b' natural' (by simpa using other.1)]
  case registry =>
    intro h b'
    rw [kept.recounted.registry, split.registry h b']

/-- The next block is handed out anew. -/
theorem miss (split : c.Split id p hits fresh) (free : c.device.free.Nodup) (taken : p.Taken q b)
    (coherent : ∀ h b', p.registry.get? h = some b' → (p.entry b').hash = h ∧ h ≠ noHash)
    (natural : ∀ b' ∈ hits ++ fresh, 0 ≤ b') : c.Split id q hits (fresh ++ [b]) := by
  have renewed := taken.renewed
  have oldest : c.device.free.filter (· ∉ hits) = fresh ++ [b] ++ q.free := by
    rw [split.oldest, taken.free, List.append_assoc, List.singleton_append]
  have missing : b ∉ hits := by
    have listed : b ∈ c.device.free.filter (· ∉ hits) := by
      rw [oldest]
      simp
    simpa using (List.mem_filter.mp listed).2
  have unlisted : b ∉ fresh := by
    have distinct : (fresh ++ [b] ++ q.free).Nodup := oldest ▸ free.filter _
    exact fun member => List.disjoint_of_nodup_append distinct.of_append_left member
      (List.mem_singleton_self b)
  have kept : ∀ b' ∈ hits ++ fresh, q.entry b' = p.entry b' := by
    intro b' member
    refine renewed.kept b' (natural b' member) fun same => ?_
    obtain rfl := List.mem_singleton.mp same
    exact (List.mem_append.mp member).elim missing unlisted
  constructor
  case cached => exact split.cached
  case distinct =>
    rw [← List.append_assoc]
    refine split.distinct.append (List.nodup_singleton b) ?_
    simpa using ⟨missing, unlisted⟩
  case oldest => exact oldest
  case shared =>
    intro b' member
    rw [kept b' (List.mem_append_left _ member), split.shared b' member]
  case reset =>
    intro b' member
    rcases List.mem_append.mp member with earlier | last
    · rw [kept b' (List.mem_append_right _ earlier), split.reset b' earlier]
    · exact renewed.reset b' last
  case others =>
    intro b' natural' other
    simp only [List.mem_append, List.mem_singleton, not_or] at other
    rw [renewed.kept b' natural' (by simpa using other.2.2),
      split.others b' natural' (by simpa using ⟨other.1, other.2.1⟩)]
  -- the block that is handed out loses its entry, which is the only one under its label
  case registry =>
    intro h b'
    rw [renewed.registry h b', split.registry h b', List.mem_append, not_or, and_assoc]
    refine and_congr_right fun found => and_congr_right fun old => ?_
    obtain ⟨label, real⟩ := coherent h b' ((split.registry h b').mpr ⟨found, old⟩)
    simp [label, real]

end Split

/-- The sequence `id` of `c` got the blocks `hits`, which the device holds for its beginning, as far as it
    does, and the blocks `fresh` for the rest. -/
structure Served (c c' : Cache) (id : SeqId) (hits fresh : List Int) : Prop where
  split : c.Split id c'.device hits fresh
  longest : c.cachedAt id hits.length = none
  table : (c'.sequence id).table = hits ++ fresh
  length : hits.length + fresh.length = (c.sequence id).blockCount
  cached : (c'.sequence id).cached = (hits.length * c.blockSize : Nat)
  /-- The last token is computed again. -/
  computed : (c'.sequence id).computed =
    min ((hits.length * c.blockSize : Nat) : Int) ((c.sequence id).length - 1)

/-- How the table of the sequence is split after some rounds. -/
structure Trails (c c' : Cache) (id : SeqId) (chain : Chain) (hits fresh : List Int) : Prop where
  split : c.Split id c'.device hits fresh
  table : (c'.sequence id).table = hits ++ fresh
  found : chain.found = hits.length * c.blockSize
  ended : chain.missed = true → c.cachedAt id hits.length = none
  going : chain.missed = false → fresh = []

theorem Spans.served_eq (spans : c.Spans c' id k chain) (tidy : c.Tidy) {hash : Int}
    (hashed : c'.NextHash chain (blockOf c.blockSize (c.sequence id).tokens k) hash)
    (split : c.Split id c'.device hits []) (running : chain.missed = false) :
    c'.served? chain hash (blockOf c.blockSize (c.sequence id).tokens k) = c.cachedAt id k := by
  unfold served? cachedAt
  by_cases full : (k + 1) * c.blockSize ≤ (c.sequence id).length
  · have same := spans.hash_eq hashed full
    have real : hash ≠ noHash := same ▸ chainHash_succ_ne _ _ _
    rw [if_neg (by simp [running, real]), if_pos full, same]
    exact split.lookup? spans.tends.1.findable tidy.tallied.findable _ _
  · have bare : hash = noHash := by
      by_contra real
      exact full (spans.full_of_real hashed real)
    rw [if_pos (Or.inr bare), if_neg full]

namespace Trails

variable (trails : c.Trails c' id chain hits fresh)
include trails

theorem natural (tends : Tends id c') : ∀ b ∈ hits ++ fresh, 0 ≤ b := by
  intro b member
  rw [← trails.table, ← deviceTable_of_device tends.2.2] at member
  exact (has_of_mem tends.1.device member).1

/-- One more block is covered. -/
theorem next (tidy : c.Tidy) (free : c.CollisionFree)
    (fits : ∀ t ∈ (c.sequence id).tokens, tokenFits t = true) (spans : c.Spans c' id k chain) {hash : Int}
    (hashed : c'.NextHash chain (blockOf c.blockSize (c.sequence id).tokens k) hash)
    (covers : c'.Covers c'' id chain chain' hash (blockOf c.blockSize (c.sequence id).tokens k) b) :
    ∃ hits' fresh', c.Trails c'' id chain' hits' fresh' := by
  have listed := tidy.tallied.device.free_nodup
  have natural := trails.natural spans.tends
  obtain ⟨split, table, found, ended, going⟩ := trails
  have table' : (c''.sequence id).table = hits ++ fresh ++ [b] := by rw [covers.replaced.self, table]
  have count : chain.missed = false → k = hits.length := by
    intro running
    rw [← spans.length, table, going running, List.append_nil]
  cases served : c'.served? chain hash (blockOf c.blockSize (c.sequence id).tokens k) with
  | some b' =>
      obtain ⟨rfl, kept, rfl⟩ := covers.hit b' served
      obtain ⟨running, -, -⟩ := registered_of_served served
      obtain rfl := going running
      rw [spans.served_eq tidy hashed split running, count running] at served
      have new : b ∉ hits := by
        intro member
        obtain ⟨i, inside, cached⟩ := split.cachedAt_of_mem member
        exact inside.ne (cachedAt_injective tidy.tallied tidy.labelled free spans.replaced.knows fits
          cached served)
      refine ⟨hits ++ [b], [], split.hit listed kept served new (by simpa using natural), ?_, ?_, ?_,
        fun _ => rfl⟩
      · rw [table', List.append_nil, List.append_nil]
      · rw [found, spans.replaced.blockSize, List.length_append, List.length_singleton, Nat.add_mul,
          Nat.one_mul]
      · intro missed
        exact absurd missed (by simp [running])
  | none =>
      obtain ⟨taken, rfl⟩ := covers.miss served
      refine ⟨hits, fresh ++ [b], split.miss listed taken (fun h b' found => ?_) natural, ?_, found, ?_, ?_⟩
      · exact (spans.labelled.coherent h b' found).2
      · rw [table', List.append_assoc]
      · intro _
        cases running : chain.missed with
        | true => exact ended running
        | false =>
            obtain rfl := going running
            rw [← count running, ← spans.served_eq tidy hashed split running, served]
      · rintro ⟨⟩

end Trails

theorem Tidy.served (tidy : c.Tidy) (free : c.CollisionFree) (sharing : c.sharing = true)
    (knows : c.Knows id) (fits : ∀ t ∈ (c.sequence id).tokens, tokenFits t = true)
    (allocated : allocate id c = .ok () c') : ∃ hits fresh, c.Served c' id hits fresh := by
  suffices served : (allocate id).Yields c (fun _ c' => ∃ hits fresh, c.Served c' id hits fresh)
      fun _ _ => True from served.of_ok allocated
  simp only [allocate, Action.yields_bind, Action.yields_get, Action.yields_require, sharing, if_true,
    implies_true, and_true]
  intro bare _
  have bare := List.isEmpty_iff.mp bare
  have tends := tidy.tallied.tends_of_bare knows bare
  have start : c.Spans c id 0 {} ∧ ∃ hits fresh, c.Trails c id {} hits fresh :=
    ⟨⟨tends, tidy.labelled, .refl knows, by rw [bare, List.length_nil], fun _ => rfl⟩, [], [],
      .start c id, bare, (Nat.zero_mul _).symm, fun missed => absurd missed Bool.false_ne_true,
      fun _ => rfl⟩
  simp only [allocateShared, look, edit, Action.yields_bind, Action.yields_get, Action.yields_pure,
    Action.yields_modify]
  refine (Action.yields_foldlM_range (fun k chain c' => c.Spans c' id k chain ∧
    ∃ hits fresh, c.Trails c' id chain hits fresh) start ?_).weaken ?_ fun _ _ holds => holds
  · rintro k chain c' inside ⟨spans, hits, fresh, trails⟩
    refine (spans.round (tidy.sized id knows) inside).weaken ?_ fun _ _ _ => trivial
    rintro chain' c'' ⟨spans', hash, b, hashed, covers⟩
    exact ⟨spans', trails.next tidy free fits spans hashed covers⟩
  · rintro chain c' ⟨spans, hits, fresh, trails⟩
    have length : hits.length + fresh.length = (c.sequence id).blockCount := by
      rw [← spans.length, trails.table, List.length_append]
    have known := (spans.replaced.knows_iff id).mpr knows
    have self := (replaced_edit known fun s =>
      { s with cached := chain.found, computed := min chain.found (s.length - 1) }).self
    refine ⟨hits, fresh, trails.split, ?_, ?_, length, ?_, ?_⟩
    · cases running : chain.missed with
      | true => exact trails.ended running
      | false =>
          rw [trails.going running, List.length_nil, Nat.add_zero] at length
          refine if_neg fun inside => ?_
          rw [← tidy.sized id knows] at inside
          exact (Sequence.lt_blockCount inside).ne length
    · rw [self]
      exact trails.table
    · rw [self, ← trails.found]
    · rw [self, ← trails.found, spans.replaced.self]
      rfl

end Cache

end PagedServing
