import PagedServing.Proofs.Memory.Collisions
import PagedServing.Proofs.Memory.Slots

/-! # Memory that backs a cache

The memory backs a cache if the blocks of every sequence hold its computed tokens, and every
published block holds tokens that its hash stands for. Whatever a cache does without moving
blocks keeps it backed by the same memory.
-/

namespace PagedServing.Cache

open Memory (Holds)

variable {c c' : Cache} {m m' : Memory} {id : SeqId} {h b : Int}

/-- The slots of the pool that a sequence has its blocks in. -/
def slotsOf (c : Cache) (m : Memory) (id : SeqId) : Int → List Int :=
  if c.isSwapped id then m.host else m.device

/-- The blocks of a sequence hold its computed tokens. -/
def Stored (c : Cache) (m : Memory) (id : SeqId) : Prop :=
  ∀ (i : Nat) b, (c.sequence id).table[i]? = some b →
    Holds c.blockSize (c.slotsOf m id) b (c.sequence id).tokens i (c.sequence id).computed

/-- A device block holds the last of some full blocks that a hash stands for. -/
def Stands (c : Cache) (m : Memory) (h b : Int) : Prop :=
  ∃ id i, c.Full id i ∧ c.hashOf id (i + 1) = h ∧
    Holds c.blockSize m.device b (c.sequence id).tokens i ((i + 1) * c.blockSize : Nat)

/-- What the memory has to hold for a cache. -/
structure Backed (c : Cache) (m : Memory) : Prop where
  stored : ∀ id, c.Knows id → c.Stored m id
  published : ∀ h b, c.device.registry.get? h = some b → c.Stands m h b
  plain : c.sharing = false → ∀ h, c.device.registry.get? h = none

/-- A sequence that has the same blocks, and no more computed, is still stored. -/
theorem Stored.lower (stored : c.Stored m id) (size : c'.blockSize = c.blockSize)
    (swapped : c'.isSwapped id = c.isSwapped id)
    (table : (c'.sequence id).table = (c.sequence id).table)
    (computed : (c'.sequence id).computed ≤ (c.sequence id).computed) {n : Nat}
    (few : (c'.sequence id).computed ≤ n)
    (tokens : (c'.sequence id).tokens.take n = (c.sequence id).tokens.take n) :
    c'.Stored m id := by
  intro i b place
  rw [table] at place
  unfold slotsOf
  rw [size, swapped]
  exact ((stored i b place).mono computed).congr few tokens

theorem Stored.same (stored : c.Stored m id) (size : c'.blockSize = c.blockSize)
    (swapped : c'.isSwapped id = c.isSwapped id) (alone : c'.sequence id = c.sequence id) :
    c'.Stored m id := by
  refine stored.lower size swapped (by rw [alone]) (by rw [alone])
    (Int.self_le_toNat (c'.sequence id).computed) ?_
  rw [alone]

theorem Stored.of_bare (bare : (c.sequence id).table = []) : c.Stored m id := by
  intro i b place
  simp [bare] at place

theorem Stands.extends (stands : c.Stands m h b) (extended : c.Extends c') : c'.Stands m h b := by
  obtain ⟨id, i, full, hash, holds⟩ := stands
  refine ⟨id, i, extended.full full, (extended.hashOf full.1 full.2).trans hash, ?_⟩
  rw [extended.blockSize]
  exact holds.congr (Int.le_refl _) (extended.take full.1 full.2)

theorem Publishes.stands {i : Nat} (publishes : c.Publishes id h b i) (knows : c.Knows id)
    (stored : c.Stored m id) (computed : (c.sequence id).computed ≤ (c.sequence id).length) :
    c.Stands m h b := by
  have inside : (i + 1) * c.blockSize ≤ (c.sequence id).length := by
    have := publishes.computed.trans computed
    exact_mod_cast this
  refine ⟨id, i, ⟨knows, inside⟩, publishes.hash.symm, ?_⟩
  have holds := stored i b publishes.place
  simp only [slotsOf, publishes.device, Bool.false_eq_true, if_false] at holds
  exact holds.mono (by exact_mod_cast publishes.computed)

theorem Backed.replaced {q : Sequence} (backed : c.Backed m) (replaced : c.Replaced c' id q)
    (extended : c.Extends c')
    (swapped : ∀ other, other ≠ id → c'.isSwapped other = c.isSwapped other)
    (self : c'.Stored m id)
    (registry : ∀ h b, c'.device.registry.get? h = some b →
      c.device.registry.get? h = some b ∨ c.sharing = true ∧ c.Stands m h b) : c'.Backed m where
  stored other knows := by
    by_cases same : other = id
    · exact same ▸ self
    · exact (backed.stored other ((replaced.knows_iff other).mp knows)).same replaced.blockSize
        (swapped other same) (replaced.others other same)
  published h b found := by
    rcases registry h b found with old | ⟨_, stands⟩
    · exact (backed.published h b old).extends extended
    · exact stands.extends extended
  plain off h := by
    have off := replaced.sharing.symm.trans off
    refine Option.eq_none_iff_forall_ne_some.mpr fun b found => ?_
    rcases registry h b found with old | ⟨on, _⟩
    · simp [backed.plain off h] at old
    · simp [off] at on

theorem Backed.served (backed : c.Backed m) (distinct : c.Distinct) {i : Nat} (full : c.Full id i)
    (found : c.device.registry.get? (c.hashOf id (i + 1)) = some b) :
    Holds c.blockSize m.device b (c.sequence id).tokens i ((i + 1) * c.blockSize : Nat) := by
  have sharing : c.sharing = true := by
    by_contra off
    simp [backed.plain (by simpa using off)] at found
  obtain ⟨id', i', full', hash, holds⟩ := backed.published _ _ found
  obtain ⟨rfl, tokens⟩ := distinct.tokens_unique sharing full' full hash
  exact holds.congr (Int.le_refl _) tokens.symm

theorem Allocated.stored {table : List Int} {computed cached : Int}
    (allocated : c.Allocated c' id table computed cached) (distinct : c.Distinct)
    (backed : c.Backed m) : c'.Stored m id := by
  have self := allocated.replaced.self
  have device : c'.isSwapped id = false :=
    (isSwapped_congr allocated.swapped id).trans allocated.device
  intro i b place k inside before
  rw [self] at place before ⊢
  rw [allocated.replaced.blockSize] at inside before ⊢
  have started : (i * c.blockSize : Int) < computed := by
    have before : ((i * c.blockSize + k : Nat) : Int) < computed := before
    push_cast at before
    omega
  obtain ⟨full, found, _⟩ := allocated.served i b place started
  simp only [slotsOf, device, Bool.false_eq_true, if_false]
  refine backed.served distinct ⟨allocated.replaced.knows, full⟩ found k inside ?_
  rw [Nat.add_mul, Nat.one_mul]
  omega

theorem Grown.stored {blocks : List Int} (grown : c.Grown c' id blocks) (stored : c.Stored m id)
    (covered : (c.sequence id).computed ≤ ((c.sequence id).table.length * c.blockSize : Nat)) :
    c'.Stored m id := by
  have self := grown.replaced.self
  intro i b place
  rw [self] at place ⊢
  rw [grown.replaced.blockSize]
  have slots : c'.slotsOf m id = c.slotsOf m id := by
    simp only [slotsOf, isSwapped_congr grown.swapped]
  rw [slots]
  have place : ((c.sequence id).table ++ blocks)[i]? = some b := place
  rw [List.getElem?_append] at place
  split at place
  · exact stored i b place
  · rename_i late
    intro k _ before
    have before : ((i * c.blockSize + k : Nat) : Int) < (c.sequence id).computed := before
    have := Nat.mul_le_mul_right c.blockSize (Nat.le_of_not_lt late)
    omega

theorem Gained.stands (gained : c.Gained c' (c.Publishes id)) (knows : c.Knows id)
    (backed : c.Backed m) (computed : (c.sequence id).computed ≤ (c.sequence id).length)
    (found : c'.device.registry.get? h = some b) :
    c.device.registry.get? h = some b ∨ c.sharing = true ∧ c.Stands m h b := by
  rcases gained.origin found with before | ⟨i, publishes⟩
  · exact Or.inl before
  · exact Or.inr ⟨publishes.sharing, publishes.stands knows (backed.stored _ knows) computed⟩

/-- A change that moves no block leaves a cache backed by the same memory. -/
theorem Change.backed (change : Change c c') (distinct : c.Distinct) (backed : c.Backed m) :
    c'.Backed m := by
  -- by the kinds of change: none moves content, so each sequence is stored where it was before,
  -- and only publishing and releasing let hashes stand for blocks that did not have them
  have extended := change.extends
  cases change with
  | allocated allocated =>
      refine backed.replaced allocated.replaced extended
        (fun other _ => isSwapped_congr allocated.swapped other)
        (allocated.stored distinct backed)
        fun h b found => Or.inl (allocated.supplied.registry h b found)
  | grown grown covered =>
      refine backed.replaced grown.replaced extended
        (fun other _ => isSwapped_congr grown.swapped other)
        (grown.stored (backed.stored _ grown.replaced.knows) covered)
        fun h b found => Or.inl (grown.supplied.registry h b found)
  | published knows published computed =>
      refine backed.replaced (published.replaced knows) extended
        (fun other _ => isSwapped_congr published.swapped other) ?_
        fun h b => published.gained.stands knows backed computed
      exact (backed.stored _ knows).same published.blockSize
        (isSwapped_congr published.swapped _) (published.sequence _)
  | released released computed =>
      exact backed.replaced released.replaced extended
        (fun other different => isSwapped_erased released.swapped different)
        (.of_bare (by rw [released.replaced.self]))
        fun h b => released.gained.stands released.replaced.knows backed computed
  | noted noted computed =>
      have self := noted.replaced.self
      refine backed.replaced noted.replaced extended
        (fun other _ => isSwapped_congr noted.swapped other) ?_
        fun h b found => Or.inl (noted.device ▸ found)
      refine (backed.stored _ noted.replaced.knows).lower noted.replaced.blockSize
        (isSwapped_congr noted.swapped _) (noted.tables _) (self ▸ computed)
        (Int.self_le_toNat _) ?_
      rw [noted.tokens]
  | appended appended computed =>
      have self := appended.replaced.self
      refine backed.replaced appended.replaced extended
        (fun other _ => isSwapped_congr appended.swapped other) ?_
        fun h b found => Or.inl (appended.device ▸ found)
      refine (backed.stored _ appended.replaced.knows).lower appended.replaced.blockSize
        (isSwapped_congr appended.swapped _) (appended.tables _) ?_ ?_
        (extended.take appended.replaced.knows (Nat.le_refl _))
      · rw [self]
      · rw [self]
        exact computed
  | created created bare =>
      refine ⟨fun other knows => ?_, fun h b found => ?_, fun off h => ?_⟩
      · rcases (created.knows_iff other).mp knows with old | rfl
        · exact (backed.stored other old).same created.blockSize
            (isSwapped_congr created.swapped other) (created.others other old)
        · exact .of_bare (by rw [created.self, bare])
      · exact (backed.published h b (created.device ▸ found)).extends extended
      · rw [created.device]
        exact backed.plain (created.sharing.symm.trans off) h
  | reported journal => exact ⟨backed.stored, backed.published, backed.plain⟩

theorem Changes.backed (changes : c.Changes c') (distinct : c'.Distinct) (backed : c.Backed m) :
    c'.Backed m := by
  induction changes with
  | refl => exact backed
  | tail _ change ih =>
      have distinct := change.extends.distinct distinct
      exact change.backed distinct (ih distinct)

end PagedServing.Cache
