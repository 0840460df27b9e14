import PagedServing.Proofs.Cache.Sound

/-! # What a change of one sequence keeps

An operation of the cache replaces one sequence. Filing, balance and labels of the cache
then follow from what happened to that sequence's table and to the pool that it is in.
-/

namespace PagedServing.Cache

variable {c c' : Cache} {id : SeqId} {q : Sequence}

@[simp]
theorem returns_look {post : Sequence → Cache → Prop} :
    (look id).Returns c post ↔ post (c.sequence id) c := by
  simp [look]

@[simp]
theorem returns_edit {f : Sequence → Sequence} {post : Unit → Cache → Prop} :
    (edit id f).Returns c post ↔ post () { c with sequences := c.sequences.update id f } := by
  simp [edit]

@[simp]
theorem returns_onDevice {α : Type} {act : Action Pool α} {post : α → Cache → Prop} :
    (onDevice act).Returns c post ↔
      act.Returns c.device fun a p => post a { c with device := p } := by
  simp [onDevice]

@[simp]
theorem returns_onHost {α : Type} {act : Action Pool α} {post : α → Cache → Prop} {p : Pool}
    (host : c.host = some p) :
    (onHost act).Returns c post ↔
      act.Returns p fun a p => post a { c with host := some p } := by
  have same : (onHost act).Returns c post ↔
      (Action.within (fun _ => p) (fun c p => { c with host := some p }) act).Returns c post := by
    simp only [Action.Returns, onHost, host]
  rw [same, Action.returns_within]

theorem Filed.replaced (filed : c.Filed) (replaced : c.Replaced c' id q) (number : q.id = id)
    (size : q.blockSize = c.blockSize) (fits : c.Hashes q.tokens)
    (swapped_nodup : c'.swapped.Nodup) (swapped : ∀ other ∈ c'.swapped, c.Knows other)
    (host : ∀ other ∈ c'.swapped, c'.host.isSome) : c'.Filed where
  numbered other knows := by
    by_cases same : other = id
    · rw [same, replaced.self, number]
    · rw [replaced.others other same]
      exact filed.numbered other ((replaced.knows_iff other).mp knows)
  sized other knows := by
    rw [replaced.blockSize]
    by_cases same : other = id
    · rw [same, replaced.self, size]
    · rw [replaced.others other same]
      exact filed.sized other ((replaced.knows_iff other).mp knows)
  fits other knows := by
    refine Hashes.congr ?_ replaced.sharing
    by_cases same : other = id
    · rw [same, replaced.self]
      exact fits
    · rw [replaced.others other same]
      exact filed.fits other ((replaced.knows_iff other).mp knows)
  swapped_nodup := swapped_nodup
  swapped_known other member := (replaced.knows_iff other).mpr (swapped other member)
  swapped_host := host

theorem Filed.retabled (filed : c.Filed) {table : List Int} {computed cached : Int}
    (replaced : c.Replaced c' id { c.sequence id with table, computed, cached })
    (swapped : c'.swapped = c.swapped) (host : c.host.isSome → c'.host.isSome) : c'.Filed :=
  filed.replaced replaced (filed.numbered id replaced.knows) (filed.sized id replaced.knows)
    (filed.fits id replaced.knows) (swapped ▸ filed.swapped_nodup)
    (fun other member => filed.swapped_known other (swapped ▸ member))
    (fun other member => host (filed.swapped_host other (swapped ▸ member)))

section Tables

variable (replaced : c.Replaced c' id q)
include replaced

theorem deviceTable_others {other : SeqId} (different : other ≠ id)
    (swapped : c'.isSwapped other = c.isSwapped other) :
    c'.deviceTable other = c.deviceTable other := by
  simp only [deviceTable, swapped, replaced.others other different]

theorem hostTable_others {other : SeqId} (different : other ≠ id)
    (swapped : c'.isSwapped other = c.isSwapped other) :
    c'.hostTable other = c.hostTable other := by
  simp only [hostTable, swapped, replaced.others other different]

/-- The occurrences of device blocks change by what one table loses and gains. -/
theorem deviceHolders_replaced
    (swapped : ∀ other, other ≠ id → c'.isSwapped other = c.isSwapped other) (b : Int) :
    c'.deviceHolders b + (c.deviceTable id).count b =
      c.deviceHolders b + (c'.deviceTable id).count b := by
  unfold deviceHolders
  rw [replaced.count]
  exact occurrences_replace replaced.knows
    (fun other different => deviceTable_others replaced different (swapped other different)) b

/-- The occurrences of host blocks change by what one table loses and gains. -/
theorem hostHolders_replaced
    (swapped : ∀ other, other ≠ id → c'.isSwapped other = c.isSwapped other) (b : Int) :
    c'.hostHolders b + (c.hostTable id).count b =
      c.hostHolders b + (c'.hostTable id).count b := by
  unfold hostHolders
  rw [replaced.count]
  exact occurrences_replace replaced.knows
    (fun other different => hostTable_others replaced different (swapped other different)) b

end Tables

theorem deviceTable_of_device (device : c.isSwapped id = false) :
    c.deviceTable id = (c.sequence id).table := by
  simp [deviceTable, device]

theorem hostTable_of_device (device : c.isSwapped id = false) : c.hostTable id = [] := by
  simp [hostTable, device]

theorem deviceTable_of_swapped (swapped : c.isSwapped id = true) : c.deviceTable id = [] := by
  simp [deviceTable, swapped]

theorem hostTable_of_swapped (swapped : c.isSwapped id = true) :
    c.hostTable id = (c.sequence id).table := by
  simp [hostTable, swapped]

theorem deviceTable_place (device : c.isSwapped id = false) {i : Nat} {b : Int}
    (place : (c.sequence id).table[i]? = some b) : (c.deviceTable id)[i]? = some b := by
  rw [deviceTable_of_device device]
  exact place

theorem mem_deviceTable (device : c.isSwapped id = false) {i : Nat} {b : Int}
    (place : (c.sequence id).table[i]? = some b) : b ∈ c.deviceTable id :=
  List.mem_of_getElem? (deviceTable_place device place)

theorem isSwapped_congr (swapped : c'.swapped = c.swapped) (id : SeqId) :
    c'.isSwapped id = c.isSwapped id := by
  simp only [isSwapped, swapped]

theorem holders_pos_of_mem (knows : c.Knows id) {b : Int} (member : b ∈ c.deviceTable id) :
    0 < c.deviceHolders b :=
  Nat.lt_of_lt_of_le (List.count_pos_iff.mpr member) (count_le_occurrences knows b)

theorem exists_holder {b : Int} (held : 0 < c.deviceHolders b) :
    ∃ id, c.Knows id ∧ b ∈ c.deviceTable id := by
  unfold deviceHolders occurrences at held
  obtain ⟨id, inside, some⟩ := Finset.exists_ne_zero_of_sum_ne_zero (Nat.ne_of_gt held)
  exact ⟨id, Finset.mem_range.mp inside, List.count_pos_iff.mp (Nat.pos_of_ne_zero some)⟩

/-- What is read under a number that was never given. -/
theorem sequence_of_unknown (unknown : ¬ c.Knows id) : c.sequence id = default := by
  have beyond : c.sequences.entries.length ≤ id := Nat.le_of_not_lt unknown
  simp only [sequence, Store.get, List.getD_eq_getElem?_getD, List.getElem?_eq_none beyond]
  rfl

theorem table_of_unknown (unknown : ¬ c.Knows id) : (c.sequence id).table = [] := by
  rw [sequence_of_unknown unknown]
  rfl

theorem knows_of_place {i : Nat} {b : Int} (place : (c.deviceTable id)[i]? = some b) :
    c.Knows id := by
  by_contra unknown
  have member := List.mem_of_getElem? place
  unfold deviceTable at member
  rw [table_of_unknown unknown] at member
  simp at member

theorem has_of_mem (device : c.device.Balanced c.deviceHolders) {b : Int}
    (member : b ∈ c.deviceTable id) : c.device.Has b := by
  obtain ⟨i, place⟩ := List.mem_iff_getElem?.mp member
  exact device.has b (holders_pos_of_mem (knows_of_place place) member)

theorem Balanced.has_of_mem (balanced : c.Balanced) {b : Int} (member : b ∈ c.deviceTable id) :
    c.device.Has b :=
  Cache.has_of_mem balanced.device member

/-- A block without a label stands in one place. -/
theorem Labelled.plain_unique (labelled : c.Labelled) (device : c.device.Balanced c.deviceHolders)
    {other : SeqId}
    {i j : Nat} {b : Int} (plain : (c.device.entry b).hash = noHash)
    (place : (c.deviceTable id)[i]? = some b) (place' : (c.deviceTable other)[j]? = some b) :
    other = id ∧ j = i := by
  have has := has_of_mem device (List.mem_of_getElem? place)
  exact place_unique (labelled.unshared b has plain) (knows_of_place place)
    (knows_of_place place') place place'

theorem Labelled.of_agrees (labelled : c.Labelled) (agrees : c.device.Agrees c'.device)
    (size : c'.blockSize = c.blockSize) (sharing : c'.sharing = c.sharing)
    (few : ∀ b, c.device.Has b → (c.device.entry b).hash = noHash →
      c'.deviceHolders b ≤ c.deviceHolders b)
    (chained : ∀ id (i : Nat) b, (c'.deviceTable id)[i]? = some b → 0 ≤ b ∧
      ((c.device.entry b).hash ≠ noHash → (i + 1) * c.blockSize ≤ (c'.sequence id).length ∧
        (c.device.entry b).hash = chainHash c.blockSize (c'.sequence id).tokens (i + 1))) :
    c'.Labelled where
  coherent h b found := by
    obtain ⟨has, hash, real⟩ := labelled.coherent h b (agrees.registry ▸ found)
    exact ⟨(Pool.has_congr agrees.size).mpr has, (agrees.hash b has.1).trans hash, real⟩
  unshared b has plain := by
    have has := (Pool.has_congr agrees.size).mp has
    have plain := (agrees.hash b has.1).symm.trans plain
    exact Nat.le_trans (few b has plain) (labelled.unshared b has plain)
  chained id i b place real := by
    obtain ⟨natural, holds⟩ := chained id i b place
    rw [agrees.hash b natural] at real ⊢
    rw [size]
    exact holds real
  plain off b has := by
    have has := (Pool.has_congr agrees.size).mp has
    rw [agrees.hash b has.1]
    exact labelled.plain (sharing ▸ off) b has

/-- Blocks handed out for new content carry no label, and the others keep theirs. -/
theorem Labelled.of_renewed (labelled : c.Labelled) {ids : List Int}
    (renewed : c.device.Renewed c'.device ids)
    (size : c'.blockSize = c.blockSize) (sharing : c'.sharing = c.sharing)
    (once : ∀ b ∈ ids, c'.deviceHolders b ≤ 1)
    (few : ∀ b, b ∉ ids → c'.deviceHolders b ≤ c.deviceHolders b)
    (tables : ∀ id (i : Nat) b, (c'.deviceTable id)[i]? = some b → b ∈ ids ∨
      0 ≤ b ∧ (c.deviceTable id)[i]? = some b)
    (tokens : ∀ id, (c'.sequence id).tokens = (c.sequence id).tokens) : c'.Labelled where
  coherent h b found := by
    obtain ⟨before, outside⟩ := (renewed.registry h b).mp found
    obtain ⟨has, hash, real⟩ := labelled.coherent h b before
    have old : b ∉ ids := fun member => (outside member).elim (· hash) real
    refine ⟨(Pool.has_congr renewed.size).mpr has, ?_, real⟩
    rw [renewed.kept b has.1 old, hash]
  unshared b has plain := by
    have has := (Pool.has_congr renewed.size).mp has
    by_cases new : b ∈ ids
    · exact once b new
    · rw [renewed.kept b has.1 new] at plain
      exact Nat.le_trans (few b new) (labelled.unshared b has plain)
  chained id i b place real := by
    have old : b ∉ ids := fun new => real (by rw [renewed.reset b new])
    obtain ⟨natural, before⟩ := (tables id i b place).resolve_left old
    rw [renewed.kept b natural old] at real ⊢
    have same : (c'.sequence id).length = (c.sequence id).length := by
      rw [← Sequence.length_tokens, tokens, Sequence.length_tokens]
    rw [size, tokens, same]
    exact labelled.chained id i b before real
  plain off b has := by
    have has := (Pool.has_congr renewed.size).mp has
    by_cases new : b ∈ ids
    · rw [renewed.reset b new]
    · rw [renewed.kept b has.1 new]
      exact labelled.plain (sharing ▸ off) b has

/-- The second state of a sequence has the same origin, the same tokens and the same
    blocks. -/
structure Alike (q q' : Sequence) : Prop where
  account : q'.account = q.account
  table : q'.table = q.table

namespace Alike

variable {q q' : Sequence} (alike : Alike q q')
include alike

theorem number : q'.id = q.id :=
  congrArg Origin.id (Sequence.origin_of_account alike.account)

theorem size : q'.blockSize = q.blockSize :=
  congrArg Origin.blockSize (Sequence.origin_of_account alike.account)

end Alike

/-- Something was noted about a sequence that neither pool depends on. -/
structure Noted (c c' : Cache) (id : SeqId) (q : Sequence) : Prop where
  replaced : c.Replaced c' id q
  alike : Alike (c.sequence id) q
  swapped : c'.swapped = c.swapped
  device : c'.device = c.device
  host : c'.host = c.host

theorem noted_edit (knows : c.Knows id) {f : Sequence → Sequence}
    (alike : Alike (c.sequence id) (f (c.sequence id))) :
    c.Noted { c with sequences := c.sequences.update id f } id (f (c.sequence id)) :=
  ⟨replaced_edit knows f, alike, rfl, rfl, rfl⟩

namespace Noted

variable (noted : c.Noted c' id q)
include noted

theorem account (other : SeqId) : (c'.sequence other).account = (c.sequence other).account := by
  by_cases same : other = id
  · rw [same, noted.replaced.self, noted.alike.account]
  · rw [noted.replaced.others other same]

theorem tokens (other : SeqId) : (c'.sequence other).tokens = (c.sequence other).tokens :=
  Sequence.tokens_of_account (noted.account other)

theorem length (other : SeqId) : (c'.sequence other).length = (c.sequence other).length :=
  Sequence.length_of_account (noted.account other)

theorem tables (other : SeqId) : (c'.sequence other).table = (c.sequence other).table := by
  by_cases same : other = id
  · rw [same, noted.replaced.self, noted.alike.table]
  · rw [noted.replaced.others other same]

theorem deviceTable (other : SeqId) : c'.deviceTable other = c.deviceTable other := by
  simp only [Cache.deviceTable, isSwapped_congr noted.swapped, noted.tables]

theorem hostTable (other : SeqId) : c'.hostTable other = c.hostTable other := by
  simp only [Cache.hostTable, isSwapped_congr noted.swapped, noted.tables]

theorem deviceHolders : c'.deviceHolders = c.deviceHolders := by
  funext b
  simp only [Cache.deviceHolders, noted.replaced.count]
  exact occurrences_congr (fun other _ => noted.deviceTable other) b

theorem labelled (labelled : c.Labelled) (device : c.device.Balanced c.deviceHolders) :
    c'.Labelled := by
  refine labelled.of_agrees (noted.device ▸ Pool.Agrees.refl _) noted.replaced.blockSize
    noted.replaced.sharing (fun b _ _ => by rw [noted.deviceHolders]) fun other i b place => ?_
  rw [noted.deviceTable] at place
  rw [noted.length, noted.tokens]
  exact ⟨(has_of_mem device (List.mem_of_getElem? place)).1, labelled.chained other i b place⟩

theorem sound (sound : c.Sound) : c'.Sound := by
  have knows := noted.replaced.knows
  have deviceHolders := noted.deviceHolders
  have hostHolders : c'.hostHolders = c.hostHolders := by
    funext b
    simp only [Cache.hostHolders, noted.replaced.count]
    exact occurrences_congr (fun other _ => noted.hostTable other) b
  refine ⟨?_, ⟨?_, ?_, ?_⟩, noted.labelled sound.labelled sound.balanced.device⟩
  · refine sound.filed.replaced noted.replaced (noted.alike.number.trans (sound.filed.numbered id knows))
      (noted.alike.size.trans (sound.filed.sized id knows)) ?_ (noted.swapped ▸ sound.filed.swapped_nodup)
      (fun other member => sound.filed.swapped_known other (noted.swapped ▸ member))
      (fun other member => noted.host ▸ sound.filed.swapped_host other (noted.swapped ▸ member))
    have tokens := noted.tokens id
    rw [noted.replaced.self] at tokens
    exact tokens ▸ sound.filed.fits id knows
  · rw [noted.device, deviceHolders]
    exact sound.balanced.device
  · rw [noted.host, hostHolders]
    exact sound.balanced.host
  · rw [hostHolders]
    exact sound.balanced.host_single

end Noted

end PagedServing.Cache
