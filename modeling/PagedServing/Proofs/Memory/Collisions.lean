import PagedServing.Proofs.Cache.Transfer

/-! # Hashes without collisions

The hash of a block is computed from the hash before it and the tokens of the block. If no
two such pairs that occur have the same hash, a hash stands for one list of tokens.
-/

namespace PagedServing

namespace Cache

/-- The first blocks of a sequence, up to the one at `i`, are full. -/
def Full (c : Cache) (id : SeqId) (i : Nat) : Prop :=
  c.Knows id ∧ (i + 1) * c.blockSize ≤ (c.sequence id).length

/-- The hash of the first `count` blocks of a sequence. -/
def hashOf (c : Cache) (id : SeqId) (count : Nat) : Int :=
  chainHash c.blockSize (c.sequence id).tokens count

/-- The tokens of one block of a sequence. -/
def blockAt (c : Cache) (id : SeqId) (i : Nat) : List Int :=
  blockOf c.blockSize (c.sequence id).tokens i

/-- Two blocks have different hashes, unless they hold the same tokens after the same hash. -/
def Apart (c : Cache) (id : SeqId) (i : Nat) (id' : SeqId) (i' : Nat) : Prop :=
  ∀ hash, blockHash (c.hashOf id i) (c.blockAt id i) = .ok hash →
    blockHash (c.hashOf id' i') (c.blockAt id' i') = .ok hash →
    c.hashOf id i = c.hashOf id' i' ∧ c.blockAt id i = c.blockAt id' i'

/-- No two full blocks of the sequences that were ever constructed have one hash without
    being the same. -/
def CollisionFree (c : Cache) : Prop :=
  ∀ id id' i i', c.Full id i → c.Full id' i' → c.Apart id i id' i'

instance (c : Cache) (id id' : SeqId) (i i' : Nat) : Decidable (c.Apart id i id' i') :=
  match first : blockHash (c.hashOf id i) (c.blockAt id i) with
  | .error _ => isTrue fun _ faulty => nomatch first.symm.trans faulty
  | .ok hash =>
      decidable_of_iff (blockHash (c.hashOf id' i') (c.blockAt id' i') = .ok hash →
        c.hashOf id i = c.hashOf id' i' ∧ c.blockAt id i = c.blockAt id' i') (by simp [Apart, first])

/-- The full blocks of all sequences that were ever constructed. -/
def fullBlocks (c : Cache) : List (SeqId × Nat) :=
  (List.range c.sequences.nextId).flatMap fun id =>
    (List.range ((c.sequence id).length / c.blockSize)).map (id, ·)

theorem mem_fullBlocks {c : Cache} {id : SeqId} {i : Nat} :
    (id, i) ∈ c.fullBlocks ↔ c.Full id i := by
  have inside : i < (c.sequence id).length / c.blockSize ↔
      (i + 1) * c.blockSize ≤ (c.sequence id).length :=
    Nat.le_div_iff_mul_le c.blockSize_pos
  simp only [fullBlocks, List.mem_flatMap, List.mem_map, List.mem_range, Prod.mk.injEq]
  constructor
  · rintro ⟨id, knows, i, before, rfl, rfl⟩
    exact ⟨knows, inside.mp before⟩
  · exact fun full => ⟨id, full.1, i, inside.mpr full.2, rfl, rfl⟩

/-- Only the full blocks have to be compared. -/
instance (c : Cache) : Decidable c.CollisionFree :=
  decidable_of_iff (∀ first ∈ c.fullBlocks, ∀ second ∈ c.fullBlocks,
      c.Apart first.1 first.2 second.1 second.2) <| by
    constructor
    · intro checked id id' i i' full full'
      exact checked (id, i) (mem_fullBlocks.mpr full) (id', i') (mem_fullBlocks.mpr full')
    · rintro free ⟨id, i⟩ member ⟨id', i'⟩ member'
      exact free id id' i i' (mem_fullBlocks.mp member) (mem_fullBlocks.mp member')

/-- Every token can be hashed, and no hash that is shared by is ambiguous. -/
structure Distinct (c : Cache) : Prop where
  fits : ∀ id, c.Knows id → c.Hashes (c.sequence id).tokens
  free : c.sharing = true → c.CollisionFree

/-- Every sequence is still there, with the same tokens or more. -/
structure Extends (c c' : Cache) : Prop where
  blockSize : c'.blockSize = c.blockSize
  sharing : c'.sharing = c.sharing
  knows : ∀ id, c.Knows id → c'.Knows id
  tokens : ∀ id, c.Knows id → (c.sequence id).tokens <+: (c'.sequence id).tokens

variable {c c' c'' : Cache} {id id' : SeqId} {i i' : Nat}

theorem Full.before (full : c.Full id i) {k : Nat} (few : k ≤ i) : c.Full id k :=
  ⟨full.1, (Nat.mul_le_mul_right _ (Nat.add_le_add_right few 1)).trans full.2⟩

/-- Without collisions, a hash stands for one list of tokens. -/
theorem CollisionFree.tokens_unique (free : c.CollisionFree)
    (fits : ∀ t ∈ (c.sequence id).tokens, tokenFits t = true)
    (fits' : ∀ t ∈ (c.sequence id').tokens, tokenFits t = true)
    (full : c.Full id i) (full' : c.Full id' i') (same : c.hashOf id (i + 1) = c.hashOf id' (i' + 1)) :
    i = i' ∧ (c.sequence id).tokens.take ((i + 1) * c.blockSize) =
      (c.sequence id').tokens.take ((i' + 1) * c.blockSize) := by
  refine chainHash_unique (fun k few k' few' same => ?_) same
  have same : c.hashOf id (k + 1) = c.hashOf id' (k' + 1) := same
  refine free id id' k k' (full.before few) (full'.before few') (c.hashOf id (k + 1))
    (blockHash_chainHash fits k) ?_
  rw [same]
  exact blockHash_chainHash fits' k'

theorem Distinct.tokens_unique (distinct : c.Distinct) (sharing : c.sharing = true)
    (full : c.Full id i) (full' : c.Full id' i') (same : c.hashOf id (i + 1) = c.hashOf id' (i' + 1)) :
    i = i' ∧ (c.sequence id).tokens.take ((i + 1) * c.blockSize) =
      (c.sequence id').tokens.take ((i' + 1) * c.blockSize) :=
  (distinct.free sharing).tokens_unique (distinct.fits id full.1 sharing)
    (distinct.fits id' full'.1 sharing) full full' same

namespace Extends

theorem refl (c : Cache) : c.Extends c :=
  ⟨rfl, rfl, fun _ knows => knows, fun _ _ => List.prefix_rfl⟩

theorem trans (first : c.Extends c') (second : c'.Extends c'') : c.Extends c'' where
  blockSize := second.blockSize.trans first.blockSize
  sharing := second.sharing.trans first.sharing
  knows id knows := second.knows id (first.knows id knows)
  tokens id knows := (first.tokens id knows).trans (second.tokens id (first.knows id knows))

/-- One sequence was replaced by one with the same tokens or more. -/
theorem of_replaced {q : Sequence} (replaced : c.Replaced c' id q)
    (tokens : (c.sequence id).tokens <+: q.tokens) : c.Extends c' where
  blockSize := replaced.blockSize
  sharing := replaced.sharing
  knows other := (replaced.knows_iff other).mpr
  tokens other _ := by
    by_cases same : other = id
    · rw [same, replaced.self]
      exact tokens
    · rw [replaced.others other same]

theorem of_noted {q : Sequence} (noted : c.Noted c' id q) : c.Extends c' where
  blockSize := noted.replaced.blockSize
  sharing := noted.replaced.sharing
  knows other := (noted.replaced.knows_iff other).mpr
  tokens other _ := by rw [noted.tokens]

section

variable (extended : c.Extends c')
include extended

theorem length (knows : c.Knows id) : (c.sequence id).length ≤ (c'.sequence id).length := by
  have := (extended.tokens id knows).length_le
  rwa [Sequence.length_tokens, Sequence.length_tokens] at this

theorem full (full : c.Full id i) : c'.Full id i :=
  ⟨extended.knows id full.1, extended.blockSize ▸ full.2.trans (extended.length full.1)⟩

/-- The hashes of full blocks stay what they were. -/
theorem hashOf (knows : c.Knows id) {count : Nat}
    (inside : count * c.blockSize ≤ (c.sequence id).length) :
    c'.hashOf id count = c.hashOf id count := by
  obtain ⟨more, same⟩ := extended.tokens id knows
  unfold Cache.hashOf
  rw [extended.blockSize, ← same]
  exact chainHash_append (by rwa [Sequence.length_tokens])

theorem blockAt (full : c.Full id i) : c'.blockAt id i = c.blockAt id i := by
  obtain ⟨more, same⟩ := extended.tokens id full.1
  unfold Cache.blockAt
  rw [extended.blockSize, ← same]
  exact blockOf_append (by rw [Sequence.length_tokens]; exact full.2)

theorem take (knows : c.Knows id) {n : Nat} (few : n ≤ (c.sequence id).length) :
    (c'.sequence id).tokens.take n = (c.sequence id).tokens.take n := by
  obtain ⟨more, same⟩ := extended.tokens id knows
  rw [← same]
  exact List.take_append_of_le_length (by rwa [Sequence.length_tokens])

theorem collisionFree (free : c'.CollisionFree) : c.CollisionFree := by
  intro id id' i i' full full'
  have prior : ∀ {id i}, c.Full id i → i * c.blockSize ≤ (c.sequence id).length := fun full =>
    (Nat.mul_le_mul_right _ (Nat.le_succ _)).trans full.2
  have later := free id id' i i' (extended.full full) (extended.full full')
  simpa only [Apart, extended.hashOf full.1 (prior full), extended.hashOf full'.1 (prior full'),
    extended.blockAt full, extended.blockAt full'] using later

theorem distinct (distinct : c'.Distinct) : c.Distinct where
  fits id knows on t member := distinct.fits id (extended.knows id knows)
    (extended.sharing.trans on) t ((extended.tokens id knows).subset member)
  free sharing := extended.collisionFree (distinct.free (extended.sharing.trans sharing))

end

end Extends

theorem Change.extends (change : Change c c') : c.Extends c' := by
  cases change with
  | allocated allocated => exact .of_replaced allocated.replaced List.prefix_rfl
  | grown grown _ => exact .of_replaced grown.replaced List.prefix_rfl
  | published knows published _ => exact .of_replaced (published.replaced knows) List.prefix_rfl
  | released released _ => exact .of_replaced released.replaced List.prefix_rfl
  | noted noted _ => exact .of_noted noted
  | appended appended _ =>
      refine .of_replaced appended.replaced ?_
      rw [← appended.replaced.self, appended.tokens_self]
      exact List.prefix_append _ _
  | created created _ =>
      refine ⟨created.blockSize, created.sharing, fun other knows => ?_, fun other knows => ?_⟩
      · exact (created.knows_iff other).mpr (Or.inl knows)
      · rw [created.others other knows]
  | reported journal => exact ⟨rfl, rfl, fun _ knows => knows, fun _ _ => List.prefix_rfl⟩

theorem Changes.extends (changes : c.Changes c') : c.Extends c' := by
  induction changes with
  | refl => exact .refl c
  | tail _ change ih => exact ih.trans change.extends

theorem Transferred.extends {work : Cache → SeqId → Cache → Moves → Prop} {ids : List SeqId}
    {moves : Moves} (each : ∀ {c c' id moves}, work c id c' moves → c.Extends c')
    (transferred : Transferred work c ids c' moves) : c.Extends c' := by
  induction transferred with
  | nobody => exact .refl c
  | next _ _ _ one ih => exact ih.trans (each one)

end Cache

end PagedServing
