import PagedServing.Cache.Release
import PagedServing.Proofs.Cache.Frame
import PagedServing.Proofs.Pool.Labels

/-! # Publishing blocks

A sequence publishes the blocks that are full and computed, each under the hash of the
tokens up to its end. A block that has a hash already has that one.
-/

namespace PagedServing.Cache

variable {c c' c'' : Cache} {id : SeqId} {h h' b b' : Int} {i k : Nat}

/-- The block `b` is published under `h` if `id` publishes what it has computed. -/
structure Publishes (c : Cache) (id : SeqId) (h b : Int) (i : Nat) : Prop where
  device : c.isSwapped id = false
  sharing : c.sharing = true
  computed : ((i + 1 : Nat) * c.blockSize : Int) ≤ (c.sequence id).computed
  place : (c.sequence id).table[i]? = some b
  hash : h = chainHash c.blockSize (c.sequence id).tokens (i + 1)
  plain : (c.device.entry b).hash = noHash

/-- Only the blocks in `new` were labelled. The hash of such a block leads to it or to one that
    was labelled later, and all other hashes lead where they led before. -/
structure Gained (c c' : Cache) (new : Int → Int → Nat → Prop) : Prop where
  registry : ∀ h, (∀ b i, ¬ new h b i) → c'.device.registry.get? h = c.device.registry.get? h
  found : ∀ h b i, new h b i →
    ∃ b' i', i ≤ i' ∧ new h b' i' ∧ c'.device.registry.get? h = some b'
  label : ∀ b, 0 ≤ b → (∀ h i, ¬ new h b i) → (c'.device.entry b).hash = (c.device.entry b).hash

/-- What publishing does apart from labelling blocks. -/
structure Relabelled (c c' : Cache) : Prop where
  sequences : c'.sequences = c.sequences
  blockSize : c'.blockSize = c.blockSize
  sharing : c'.sharing = c.sharing
  swapped : c'.swapped = c.swapped
  host : c'.host = c.host
  size : c'.device.size = c.device.size

/-- What publishing does. -/
structure Published (c c' : Cache) (id : SeqId) : Prop extends Relabelled c c' where
  gained : c.Gained c' (c.Publishes id)

theorem Publishes.unique (publishes : c.Publishes id h b i) (other : c.Publishes id h' b' i) :
    h' = h ∧ b' = b :=
  ⟨other.hash.trans publishes.hash.symm,
    Option.some.inj (other.place.symm.trans publishes.place)⟩

theorem Publishes.alone (publishes : c.Publishes id h b i) (sound : c.Sound) {other : SeqId}
    {j : Nat} (place : (c.deviceTable other)[j]? = some b) : other = id ∧ j = i :=
  sound.labelled.plain_unique sound.balanced.device publishes.plain
    (deviceTable_place publishes.device publishes.place) place

namespace Gained

variable {new new' : Int → Int → Nat → Prop}

theorem none (device : c'.device = c.device) (nothing : ∀ h b i, ¬ new h b i) :
    c.Gained c' new := by
  constructor
  case registry => exact fun _ _ => by rw [device]
  case found => exact fun h b i some => absurd some (nothing h b i)
  case label => exact fun _ _ _ => by rw [device]

theorem congr (gained : c.Gained c' new) (same : ∀ h b i, new' h b i ↔ new h b i) :
    c.Gained c' new' := by
  have equal : new' = new := by
    funext h b i
    exact propext (same h b i)
  exact equal ▸ gained

theorem agrees (gained : c.Gained c' new) (agrees : c'.device.Agrees c''.device) :
    c.Gained c'' new := by
  constructor
  case registry =>
    intro h nothing
    rw [agrees.registry]
    exact gained.registry h nothing
  case found =>
    intro h b i some
    rw [agrees.registry]
    exact gained.found h b i some
  case label =>
    intro b natural nothing
    exact (agrees.hash b natural).trans (gained.label b natural nothing)

theorem same (gained : c.Gained c' new) (device : c''.device = c'.device) : c.Gained c'' new :=
  gained.agrees (device ▸ Pool.Agrees.refl _)

theorem origin (gained : c.Gained c' new) (found : c'.device.registry.get? h = some b) :
    c.device.registry.get? h = some b ∨ ∃ i, new h b i := by
  by_cases nothing : ∀ b i, ¬ new h b i
  · exact Or.inl ((gained.registry h nothing).symm.trans found)
  · simp only [not_forall, not_not] at nothing
    obtain ⟨b₁, i₁, some⟩ := nothing
    obtain ⟨b₂, i₂, _, some, found'⟩ := gained.found h b₁ i₁ some
    obtain rfl := Option.some.inj (found'.symm.trans found)
    exact Or.inr ⟨i₂, some⟩

end Gained

namespace Relabelled

theorem refl (c : Cache) : c.Relabelled c :=
  ⟨rfl, rfl, rfl, rfl, rfl, rfl⟩

variable (relabelled : c.Relabelled c')
include relabelled

theorem sequence (other : SeqId) : c'.sequence other = c.sequence other := by
  simp only [Cache.sequence, relabelled.sequences]

theorem replaced (knows : c.Knows id) : c.Replaced c' id (c.sequence id) :=
  ⟨knows, relabelled.sequence id, fun other _ => relabelled.sequence other,
    by rw [relabelled.sequences], relabelled.blockSize, relabelled.sharing⟩

theorem registered {p : Pool} (registered : c'.device.Registered p b h) :
    c.Relabelled { c' with device := p } :=
  ⟨relabelled.sequences, relabelled.blockSize, relabelled.sharing, relabelled.swapped,
    relabelled.host, registered.size.trans relabelled.size⟩

end Relabelled

/-- A label on a block that had none keeps the labels right, if it stands for the tokens of
    the one sequence that holds the block. -/
theorem Labelled.registered (labelled : c.Labelled) (pool : c.device.Balanced c.deviceHolders) {p : Pool}
    (sharing : c.sharing = true) (place : (c.deviceTable id)[i]? = some b)
    (plain : (c.device.entry b).hash = noHash)
    (inside : (i + 1) * c.blockSize ≤ (c.sequence id).length)
    (registered : c.device.Registered p b
      (chainHash c.blockSize (c.sequence id).tokens (i + 1))) :
    { c with device := p }.Labelled where
  coherent h b' found := by
    rw [registered.registry] at found
    split at found
    · rename_i same
      cases found
      have has := has_of_mem pool (List.mem_of_getElem? place)
      refine ⟨(Pool.has_congr registered.size).mpr has, ?_, same ▸ chainHash_succ_ne _ _ _⟩
      rw [registered.hash b has.1, if_pos rfl, same]
    · obtain ⟨has, hash, real⟩ := labelled.coherent h b' found
      have different : b' ≠ b := fun same => real (hash ▸ same ▸ plain)
      refine ⟨(Pool.has_congr registered.size).mpr has, ?_, real⟩
      rw [registered.hash b' has.1, if_neg different, hash]
  unshared b' has none := by
    have has := (Pool.has_congr registered.size).mp has
    rw [registered.hash b' has.1] at none
    split at none
    · exact absurd none (chainHash_succ_ne _ _ _)
    · exact labelled.unshared b' has none
  chained other j b' place' real := by
    have place' : (c.deviceTable other)[j]? = some b' := place'
    have has := has_of_mem pool (List.mem_of_getElem? place')
    rw [registered.hash b' has.1] at real ⊢
    split at real
    · rename_i same
      subst same
      -- nobody else holds the block, and its holder names it once
      obtain ⟨rfl, rfl⟩ := labelled.plain_unique pool plain place place'
      exact ⟨inside, if_pos rfl⟩
    · rename_i different
      rw [if_neg different]
      exact labelled.chained other j b' place' real
  plain off := absurd off (by simp [sharing])

theorem Sound.registered (sound : c.Sound) {p : Pool} (sharing : c.sharing = true)
    (place : (c.deviceTable id)[i]? = some b) (plain : (c.device.entry b).hash = noHash)
    (inside : (i + 1) * c.blockSize ≤ (c.sequence id).length)
    (registered : c.device.Registered p b
      (chainHash c.blockSize (c.sequence id).tokens (i + 1))) :
    { c with device := p }.Sound where
  filed := { sound.filed with }
  balanced := ⟨registered.balanced sound.balanced.device, sound.balanced.host, sound.balanced.host_single⟩
  labelled := sound.labelled.registered sound.balanced.device sharing place plain inside registered

/-- The first blocks of a sequence were published, as far as there was something to publish. -/
abbrev PublishedTo (c c' : Cache) (id : SeqId) (count : Nat) : Prop :=
  c.Gained c' fun h b i => i < count ∧ c.Publishes id h b i

namespace PublishedTo

theorem pass (gained : c.PublishedTo c' id k) (sound : c.Sound)
    (place : (c.deviceTable id)[k]? = some b) (labelled : (c'.device.entry b).hash ≠ noHash) :
    c.PublishedTo c' id (k + 1) := by
  have has := sound.balanced.has_of_mem (List.mem_of_getElem? place)
  have nothing : ∀ h b', ¬ c.Publishes id h b' k := by
    intro h b' publishes
    have same : b' = b := by
      rw [deviceTable_of_device publishes.device] at place
      exact Option.some.inj (publishes.place.symm.trans place)
    subst same
    -- it had none before, and no earlier place of the sequence is its own
    refine labelled ((gained.label b' has.1 ?_).trans publishes.plain)
    rintro h' i ⟨earlier, other⟩
    exact Nat.ne_of_gt earlier (other.alone sound place).2
  refine gained.congr fun h b' i => ?_
  rw [Nat.lt_succ_iff_lt_or_eq, or_and_right, or_iff_left_iff_imp]
  rintro ⟨rfl, publishes⟩
  exact absurd publishes (nothing h b')

/-- A block that has no label and is computed is the next one to be published. -/
theorem publishes (gained : c.PublishedTo c' id k) (sound : c.Sound) (device : c.isSwapped id = false)
    (sharing : c.sharing = true)
    (computed : ((k + 1 : Nat) * c.blockSize : Int) ≤ (c.sequence id).computed)
    (found : (c.sequence id).table[k]? = some b) (plain : (c'.device.entry b).hash = noHash) :
    c.Publishes id (chainHash c.blockSize (c.sequence id).tokens (k + 1)) b k := by
  have place : (c.deviceTable id)[k]? = some b := by rw [deviceTable_of_device device, found]
  have has := sound.balanced.has_of_mem (List.mem_of_getElem? place)
  refine ⟨device, sharing, computed, found, rfl, ?_⟩
  rw [← plain]
  refine (gained.label b has.1 ?_).symm
  rintro h' i ⟨earlier, publishes⟩
  exact Nat.ne_of_gt earlier (publishes.alone sound place).2

theorem step (gained : c.PublishedTo c' id k) (publishes : c.Publishes id h b k) {p : Pool}
    (registered : c'.device.Registered p b h) :
    c.PublishedTo { c' with device := p } id (k + 1) := by
  constructor
  case registry =>
    intro h' nothing
    have different : h' ≠ h := fun same =>
      nothing b k ⟨Nat.lt_succ_self k, same ▸ publishes⟩
    rw [registered.registry, if_neg different]
    exact gained.registry h' fun b' i some => nothing b' i ⟨Nat.lt_succ_of_lt some.1, some.2⟩
  case found =>
    rintro h' b' i ⟨before, some⟩
    rw [registered.registry]
    by_cases same : h' = h
    · rw [if_pos same]
      exact ⟨b, k, Nat.le_of_lt_succ before, ⟨Nat.lt_succ_self k, same ▸ publishes⟩, rfl⟩
    · have earlier : i ≠ k := fun last => same (publishes.unique (last ▸ some)).1
      have before : i < k := by omega
      obtain ⟨b'', i', later, ⟨before', some'⟩, found⟩ := gained.found h' b' i ⟨before, some⟩
      rw [if_neg same]
      exact ⟨b'', i', later, ⟨Nat.lt_succ_of_lt before', some'⟩, found⟩
  case label =>
    intro b' natural nothing
    have different : b' ≠ b := fun same =>
      nothing h k ⟨Nat.lt_succ_self k, same ▸ publishes⟩
    rw [registered.hash b' natural, if_neg different]
    exact gained.label b' natural fun h' i some => nothing h' i ⟨Nat.lt_succ_of_lt some.1, some.2⟩

end PublishedTo

theorem publishBlock_returns (sound : c.Sound) (relabelled : c.Relabelled c')
    (gained : c.PublishedTo c' id k) (sound' : c'.Sound) (knows : c.Knows id)
    (device : c.isSwapped id = false) (sharing : c.sharing = true)
    (computed : ((k + 1 : Nat) * c.blockSize : Int) ≤ (c.sequence id).computed)
    (inside : (k + 1) * c.blockSize ≤ (c.sequence id).length)
    (covered : k < (c.sequence id).table.length) :
    (publishBlock id (chainHash c.blockSize (c.sequence id).tokens k) k).Returns c' fun h c'' =>
      h = chainHash c.blockSize (c.sequence id).tokens (k + 1) ∧ c.Relabelled c'' ∧
        c.PublishedTo c'' id (k + 1) ∧ c''.Sound := by
  have same := relabelled.sequence id
  have device' : c'.isSwapped id = false := (isSwapped_congr relabelled.swapped id).trans device
  have knows' := ((relabelled.replaced knows).knows_iff id).mpr knows
  have size : (c.sequence id).blockSize = c.blockSize := sound.filed.sized id knows
  have fits := sound.filed.fits id knows sharing
  have before : k < (c.sequence id).blockCount := Sequence.lt_blockCount (size ▸ inside)
  obtain ⟨b, found⟩ : ∃ b, (c.sequence id).table[k]? = some b :=
    ⟨_, List.getElem?_eq_getElem covered⟩
  have place : (c'.deviceTable id)[k]? = some b := by
    rw [deviceTable_of_device device', same, found]
  have has := sound'.balanced.has_of_mem (List.mem_of_getElem? place)
  have resolved : Offset.resolve c'.device.size b = some b.toNat := Pool.resolve_of_has has
  simp only [publishBlock, Action.returns_bind, returns_look, same, Action.returns_ofExcept,
    Sequence.block_eq before, size, Except.ok.injEq, exists_eq_left', blockHash_chainHash fits,
    Action.returns_get, Action.returns_demand, found, Option.some.injEq, resolved,
    Pool.block?_of_has has, Int.toNat_of_nonneg has.1]
  split
  · rename_i other
    have plain : (c'.device.entry b).hash = noHash := by
      by_contra real
      have labelled := (sound'.labelled.chained id k b place real).2
      rw [relabelled.blockSize, same] at labelled
      exact other labelled
    have publishes := gained.publishes sound device sharing computed found plain
    simp only [Action.returns_bind, returns_onDevice, Action.returns_pure, true_and]
    refine (Pool.register_returns has).weaken fun _ p registered =>
      ⟨relabelled.registered registered, gained.step publishes registered, ?_⟩
    refine sound'.registered (relabelled.sharing.trans sharing) place plain ?_ ?_
    · rw [relabelled.blockSize, same]
      exact inside
    · rw [relabelled.blockSize, same]
      exact registered
  -- a block that has the hash already is passed over
  · rename_i labelled
    have labelled := not_not.mp labelled
    have real : (c'.device.entry b).hash ≠ noHash := by
      rw [labelled]
      exact chainHash_succ_ne _ _ _
    have place₀ : (c.deviceTable id)[k]? = some b := by
      rw [deviceTable_of_device device, found]
    exact Action.returns_pure.mpr ⟨rfl, relabelled, gained.pass sound place₀ real, sound'⟩

/-- Publishing never fails. -/
theorem publish_returns (sound : c.Sound) (knows : c.Knows id)
    (computed : (c.sequence id).computed ≤ (c.sequence id).length) :
    (publish id).Returns c fun _ c' => c.Published c' id ∧ c'.Sound := by
  have positive : (0 : Int) < c.blockSize := Int.ofNat_lt.mpr c.blockSize_pos
  simp only [publish, Action.returns_bind, Action.returns_get]
  split
  · rename_i on
    obtain ⟨sharing, device⟩ := Bool.and_eq_true_iff.mp on
    have device : c.isSwapped id = false := by simpa using device
    have start : c.PublishedTo c id 0 := .none rfl fun _ _ _ some => absurd some.1 (Nat.not_lt_zero _)
    rw [Action.returns_discard]
    refine (Action.returns_foldlM_range (fun k h c' =>
      h = chainHash c.blockSize (c.sequence id).tokens k ∧ c.Relabelled c' ∧
        c.PublishedTo c' id k ∧ c'.Sound) ⟨rfl, .refl c, start, sound⟩ ?_).weaken ?_
    · rintro k h c' before ⟨hash, relabelled, gained, sound'⟩
      simp only [publishable, Int.lt_toNat, lt_min_iff, Int.ofNat_lt] at before
      have done : ((k + 1 : Nat) * c.blockSize : Int) ≤ (c.sequence id).computed :=
        Int.mul_le_of_le_ediv positive (by omega)
      have inside : (k + 1) * c.blockSize ≤ (c.sequence id).length := by
        exact_mod_cast done.trans computed
      rw [hash]
      exact publishBlock_returns sound relabelled gained sound' knows device sharing done inside
        before.2
    · rintro _ c' ⟨_, relabelled, gained, sound'⟩
      refine ⟨⟨relabelled, gained.congr fun h b i => (and_iff_right_of_imp fun some => ?_).symm⟩,
        sound'⟩
      have done := Int.le_ediv_of_mul_le positive some.computed
      have covered := (List.getElem?_eq_some_iff.mp some.place).1
      simp only [publishable, Int.lt_toNat, lt_min_iff, Int.ofNat_lt]
      exact ⟨by omega, covered⟩
  · rename_i off
    refine Action.returns_pure.mpr ⟨⟨.refl c, .none rfl fun _ _ _ some => off ?_⟩, sound⟩
    simp [some.sharing, some.device]

end PagedServing.Cache
