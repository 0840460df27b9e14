import PagedServing.Proofs.Cache.Change

/-! # Where labels come up

Until a batch is committed, its sequences only give blocks back, and what they publish are
blocks of their own. A block that no sequence has published belongs to one sequence only, so
the others leave it without a label.
-/

namespace PagedServing.Cache

variable {c c' c'' : Cache} {id : SeqId} {ids ids' : List SeqId} {b h : Int}

/-- One of the sequences `ids` holds the block, and it has no label. -/
def Blank (c : Cache) (ids : List SeqId) (b : Int) : Prop :=
  ∃ id ∈ ids, b ∈ c.deviceTable id ∧ (c.device.entry b).hash = noHash

theorem Blank.mono (blank : c.Blank ids b) (more : ids ⊆ ids') : c.Blank ids' b := by
  obtain ⟨id, among, rest⟩ := blank
  exact ⟨id, more among, rest⟩

theorem Publishes.blank {i : Nat} (publishes : c.Publishes id h b i) : c.Blank [id] b := by
  have member := mem_deviceTable publishes.device publishes.place
  exact ⟨id, List.mem_singleton_self id, member, publishes.plain⟩

/-- A block without a label has one holder. -/
theorem Blank.holder (blank : c.Blank ids b) (sound : c.Sound) (member : b ∈ c.deviceTable id) :
    id ∈ ids := by
  obtain ⟨other, among, member', plain⟩ := blank
  obtain ⟨i, place⟩ := List.mem_iff_getElem?.mp member
  obtain ⟨j, place'⟩ := List.mem_iff_getElem?.mp member'
  obtain ⟨rfl, _⟩ := sound.labelled.plain_unique sound.balanced.device plain place place'
  exact among

/-- Only blocks of the sequences `ids` were labelled, and no table has got a block. -/
structure Confined (c c' : Cache) (ids : List SeqId) : Prop where
  registry : ∀ h b, c'.device.registry.get? h = some b →
    c.device.registry.get? h = some b ∨ c.Blank ids b
  label : ∀ b, 0 ≤ b → (c'.device.entry b).hash = (c.device.entry b).hash ∨ c.Blank ids b
  tables : ∀ id, c'.deviceTable id = c.deviceTable id ∨ c'.deviceTable id = []

namespace Confined

theorem of_device (device : c'.device = c.device)
    (tables : ∀ id, c'.deviceTable id = c.deviceTable id) : c.Confined c' ids := by
  constructor
  case registry => exact fun h b found => Or.inl (device ▸ found)
  case label => exact fun b _ => Or.inl (by rw [device])
  case tables => exact fun id => Or.inl (tables id)

theorem refl (c : Cache) : c.Confined c ids :=
  .of_device rfl fun _ => rfl

theorem of_noted {q : Sequence} (noted : c.Noted c' id q) : c.Confined c' ids :=
  .of_device noted.device noted.deviceTable

theorem of_appended {token : Int} (appended : c.Appended c' id token) : c.Confined c' ids :=
  .of_device appended.device appended.deviceTable

theorem mono (confined : c.Confined c' ids) (more : ids ⊆ ids') : c.Confined c' ids' := by
  constructor
  case registry => exact fun h b found => (confined.registry h b found).imp_right (·.mono more)
  case label => exact fun b natural => (confined.label b natural).imp_right (·.mono more)
  case tables => exact confined.tables

/-- A sequence that publishes what it has computed labels its own blocks. -/
theorem of_gained (gained : c.Gained c' (c.Publishes id)) (handled : c.Handled c' id)
    (table : c'.deviceTable id = c.deviceTable id ∨ c'.deviceTable id = []) :
    c.Confined c' [id] := by
  constructor
  case registry =>
    intro h b found
    rcases gained.origin found with before | ⟨_, publishes⟩
    · exact Or.inl before
    · exact Or.inr publishes.blank
  case label =>
    intro b natural
    by_cases nothing : ∀ h i, ¬ c.Publishes id h b i
    · exact Or.inl (gained.label b natural nothing)
    · simp only [not_forall, not_not] at nothing
      obtain ⟨_, _, publishes⟩ := nothing
      exact Or.inr publishes.blank
  case tables =>
    intro other
    by_cases same : other = id
    · exact same ▸ table
    · left
      simp only [deviceTable, handled.swapped other same, handled.others other same]

theorem blank (confined : c.Confined c' ids) (sound : c.Sound) (blank : c'.Blank ids' b) :
    c.Blank ids' b := by
  obtain ⟨other, among, member, plain⟩ := blank
  rcases confined.tables other with same | bare
  · rw [same] at member
    refine ⟨other, among, member, ?_⟩
    rcases confined.label b (sound.balanced.has_of_mem member).1 with label | ⟨_, _, _, before⟩
    · exact label.symm.trans plain
    · exact before
  · simp [bare] at member

theorem trans (first : c.Confined c' ids) (second : c'.Confined c'' ids) (sound : c.Sound) :
    c.Confined c'' ids := by
  constructor
  case registry =>
    intro h b found
    rcases second.registry h b found with before | blank
    · exact first.registry h b before
    · exact Or.inr (first.blank sound blank)
  case label =>
    intro b natural
    rcases second.label b natural with same | blank
    · exact same ▸ first.label b natural
    · exact Or.inr (first.blank sound blank)
  case tables =>
    intro id
    rcases second.tables id with same | bare
    · exact same ▸ first.tables id
    · exact Or.inr bare

/-- Nothing is labelled that another sequence holds. -/
theorem apart (confined : c.Confined c' ids) (sound : c.Sound) (outside : id ∉ ids)
    (member : b ∈ c.deviceTable id) :
    (c'.device.entry b).hash = (c.device.entry b).hash ∧
      ∀ h, c'.device.registry.get? h = some b → c.device.registry.get? h = some b := by
  have nobody : ¬ c.Blank ids b := fun blank => outside (blank.holder sound member)
  exact ⟨(confined.label b (sound.balanced.has_of_mem member).1).resolve_right nobody,
    fun h found => (confined.registry h b found).resolve_right nobody⟩

end Confined

theorem publishes_congr {i : Nat} (sequence : c'.sequence id = c.sequence id)
    (swapped : c'.isSwapped id = c.isSwapped id) (size : c'.blockSize = c.blockSize)
    (sharing : c'.sharing = c.sharing)
    (label : b ∈ c.deviceTable id → (c'.device.entry b).hash = (c.device.entry b).hash) :
    c'.Publishes id h b i ↔ c.Publishes id h b i := by
  constructor
  · rintro ⟨device, on, computed, place, hash, plain⟩
    rw [swapped] at device
    rw [sequence, size] at computed hash
    rw [sequence] at place
    exact ⟨device, sharing.symm.trans on, computed, place, hash,
      (label (mem_deviceTable device place)).symm.trans plain⟩
  · rintro ⟨device, on, computed, place, hash, plain⟩
    have label := label (mem_deviceTable device place)
    rw [← swapped] at device
    rw [← sequence, ← size] at computed hash
    rw [← sequence] at place
    exact ⟨device, sharing.trans on, computed, place, hash, label.trans plain⟩

/-- The sequences `ids` have published what they have computed, one after the other. A hash that
    some of them publish leads to a block of one that comes no earlier. -/
structure PublishedEach (c c' : Cache) (ids : List SeqId) : Prop where
  registry : ∀ h, (∀ id ∈ ids, ∀ b i, ¬ c.Publishes id h b i) →
    c'.device.registry.get? h = c.device.registry.get? h
  found : ∀ rest, rest <:+ ids → ∀ id ∈ rest, ∀ h b i, c.Publishes id h b i →
    ∃ id' ∈ rest, ∃ b' i', c.Publishes id' h b' i' ∧ c'.device.registry.get? h = some b'

namespace PublishedEach

theorem nil (c : Cache) : c.PublishedEach c [] := by
  refine ⟨fun _ _ => rfl, fun rest suffix id among => ?_⟩
  rw [List.suffix_nil.mp suffix] at among
  cases among

theorem cons (gained : c.Gained c' (c.Publishes id)) (handled : c.Handled c' id) (sound : c.Sound)
    (confined : c.Confined c' [id]) (each : c'.PublishedEach c'' ids) (absent : id ∉ ids) :
    c.PublishedEach c'' (id :: ids) := by
  have same : ∀ {other h b i}, other ∈ ids →
      (c'.Publishes other h b i ↔ c.Publishes other h b i) := by
    intro other h b i among
    have different : other ≠ id := fun equal => absent (equal ▸ among)
    refine publishes_congr (handled.others other different) (handled.swapped other different)
      handled.blockSize handled.sharing fun member => ?_
    exact (confined.apart sound (by simpa using different) member).1
  constructor
  case registry =>
    intro h nobody
    rw [each.registry h fun other among b i publishes =>
      nobody other (List.mem_cons_of_mem id among) b i ((same among).mp publishes)]
    exact gained.registry h (nobody id List.mem_cons_self)
  case found =>
    intro rest suffix other among h b i publishes
    rcases List.suffix_cons_iff.mp suffix with rfl | later
    · by_cases again : ∃ id₁ ∈ ids, ∃ b₁ i₁, c'.Publishes id₁ h b₁ i₁
      · obtain ⟨id₁, among₁, b₁, i₁, publishes₁⟩ := again
        obtain ⟨id', among', b', i', publishes', found⟩ :=
          each.found ids List.suffix_rfl id₁ among₁ h b₁ i₁ publishes₁
        exact ⟨id', List.mem_cons_of_mem id among', b', i', (same among').mp publishes', found⟩
      · -- nobody after the first one publishes under the hash, so its block stays
        have first : other = id := by
          by_contra different
          have among := (List.mem_cons.mp among).resolve_left different
          exact again ⟨other, among, b, i, (same among).mpr publishes⟩
        subst first
        obtain ⟨b', i', _, publishes', found⟩ := gained.found h b i publishes
        refine ⟨other, List.mem_cons_self, b', i', publishes', ?_⟩
        rw [each.registry h fun id₁ among₁ b₁ i₁ publishes₁ =>
          again ⟨id₁, among₁, b₁, i₁, publishes₁⟩]
        exact found
    · have among' := later.subset among
      obtain ⟨id', member, b', i', publishes', found⟩ :=
        each.found rest later other among h b i ((same among').mpr publishes)
      exact ⟨id', member, b', i', (same (later.subset member)).mp publishes', found⟩

theorem origin (each : c.PublishedEach c' ids) (found : c'.device.registry.get? h = some b) :
    c.device.registry.get? h = some b ∨ ∃ id ∈ ids, ∃ i, c.Publishes id h b i := by
  by_cases nobody : ∀ id ∈ ids, ∀ b i, ¬ c.Publishes id h b i
  · exact Or.inl ((each.registry h nobody).symm.trans found)
  · simp only [not_forall, not_not] at nobody
    obtain ⟨id₁, among₁, b₁, i₁, publishes⟩ := nobody
    obtain ⟨id', among, b', i', publishes', found'⟩ :=
      each.found ids List.suffix_rfl id₁ among₁ h b₁ i₁ publishes
    obtain rfl := Option.some.inj (found'.symm.trans found)
    exact Or.inr ⟨id', among, i', publishes'⟩

theorem congr {c₀ c₁ : Cache} (each : c₀.PublishedEach c₁ ids)
    (before : ∀ h, c₀.device.registry.get? h = c.device.registry.get? h)
    (same : ∀ id h b i, c₀.Publishes id h b i ↔ c.Publishes id h b i)
    (after : ∀ h, c'.device.registry.get? h = c₁.device.registry.get? h) :
    c.PublishedEach c' ids := by
  constructor
  case registry =>
    intro h nobody
    rw [after, ← before]
    exact each.registry h fun id among b i publishes =>
      nobody id among b i ((same id h b i).mp publishes)
  case found =>
    intro rest suffix id among h b i publishes
    obtain ⟨id', among', b', i', publishes', found⟩ :=
      each.found rest suffix id among h b i ((same id h b i).mpr publishes)
    exact ⟨id', among', b', i', (same id' h b' i').mp publishes', (after h).trans found⟩

end PublishedEach

theorem publishes_reported {i : Nat} {journal : Logging.Journal} :
    { c with journal }.Publishes id h b i ↔ c.Publishes id h b i :=
  publishes_congr rfl rfl rfl rfl fun _ => rfl

end PagedServing.Cache
