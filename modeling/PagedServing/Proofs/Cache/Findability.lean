import PagedServing.Proofs.Cache.LongestChain

/-! # What is found after publishing

Publishing leaves a block alone that carries its hash already. But a hash is found at the block that
was registered for it last, and nowhere once that block was handed out anew. So a published block is
found if it carried no label before; if it did, only where some block was found anyway.
-/

namespace PagedServing.Cache

variable {c c' c'' : Cache} {id : SeqId} {k i : Nat} {hash b : Int} {p : Pool}

/-- The block `i` in the table of a sequence carries no label. -/
def Unlabelled (c : Cache) (id : SeqId) (i : Nat) : Prop :=
  ∃ b ∈ (c.sequence id).table[i]?, (c.device.entry b).hash = noHash

instance (c : Cache) (id : SeqId) (i : Nat) : Decidable (c.Unlabelled id i) :=
  inferInstanceAs (Decidable (∃ b ∈ (c.sequence id).table[i]?, (c.device.entry b).hash = noHash))

theorem unlabelled_iff (place : (c.sequence id).table[i]? = some b) :
    c.Unlabelled id i ↔ (c.device.entry b).hash = noHash := by
  simp [Unlabelled, place]

theorem cachedAt_with (c : Cache) (p : Pool) (id : SeqId) (i : Nat) :
    { c with device := p }.cachedAt id i = if (i + 1) * c.blockSize ≤ (c.sequence id).length then
      p.lookup? (c.hashOf id (i + 1)) (c.blockAt id i) else none :=
  rfl

theorem cachedAt_registered_of_ne (tallied : c.Tallied) (labelled : c.Labelled)
    (has : c.device.Has b) (plain : (c.device.entry b).hash = noHash)
    (registered : c.device.Registered p b hash) {tokens : List Int}
    (inscribed : ∀ b', 0 ≤ b' →
      (p.entry b').tokens = if b' = b then tokens else (c.device.entry b').tokens)
    (other : (i + 1) * c.blockSize ≤ (c.sequence id).length → c.hashOf id (i + 1) ≠ hash) :
    { c with device := p }.cachedAt id i = c.cachedAt id i := by
  rw [cachedAt_with, cachedAt]
  refine if_ctx_congr Iff.rfl (fun full => Option.ext fun b' => ?_) fun _ => rfl
  rw [(tallied.findable.of_registered registered has).lookup?_eq_some_iff,
    tallied.findable.lookup?_eq_some_iff, registered.registry, if_neg (other full)]
  refine and_congr_right fun found => ?_
  obtain ⟨has', label, real⟩ := labelled.coherent _ b' found
  have different : b' ≠ b := by
    rintro rfl
    exact real (label.symm.trans plain)
  rw [inscribed b' has'.1, if_neg different]

theorem cachedAt_registered_self (tallied : c.Tallied) (has : c.device.Has b)
    (registered : c.device.Registered p b (c.hashOf id (k + 1)))
    (inscribed : ∀ b', 0 ≤ b' →
      (p.entry b').tokens = if b' = b then c.blockAt id k else (c.device.entry b').tokens)
    (full : (k + 1) * c.blockSize ≤ (c.sequence id).length) :
    { c with device := p }.cachedAt id k = some b := by
  rw [cachedAt_with, if_pos full]
  refine (tallied.findable.of_registered registered has).lookup?_eq_some_iff.mpr ⟨?_, ?_⟩
  · exact (registered.registry _).trans (if_pos rfl)
  · exact (inscribed b has.1).trans (if_pos rfl)

/-- What is found of a sequence after its first `k` blocks were published. -/
structure Finds (c c' : Cache) (id : SeqId) (k : Nat) : Prop where
  found : ∀ i, (c'.cachedAt id i).isSome ↔ (c.cachedAt id i).isSome ∨ i < k ∧ c.Unlabelled id i
  unlabelled : ∀ i, k ≤ i → (c'.Unlabelled id i ↔ c.Unlabelled id i)

section Next

variable (finds : c.Finds c' id k) (publicizes : c.Publicizes c' id k hash)
  (place : (c.sequence id).table[k]? = some b)
include finds publicizes place

theorem Finds.unlabelled_next : c.Unlabelled id k ↔ (c'.device.entry b).hash = noHash :=
  (finds.unlabelled k le_rfl).symm.trans
    (unlabelled_iff ((congrArg (·.table[k]?) (publicizes.relabelled.sequence id)).trans place))

theorem Finds.skip (label : (c'.device.entry b).hash ≠ noHash) : c.Finds c' id (k + 1) := by
  have labelled : ¬ c.Unlabelled id k := mt (finds.unlabelled_next publicizes place).mp label
  refine ⟨fun i => (finds.found i).trans (or_congr_right ?_), fun i after =>
    finds.unlabelled i (Nat.le_of_succ_le after)⟩
  rw [Nat.lt_succ_iff_lt_or_eq]
  constructor
  · exact fun both => ⟨Or.inl both.1, both.2⟩
  · rintro ⟨early | rfl, plain⟩
    · exact ⟨early, plain⟩
    · exact absurd plain labelled

/-- A block without a label is registered. Nothing else is found under its hash. -/
theorem Finds.enter (knows : c.Knows id) (free : c.CollisionFree)
    (fits : ∀ t ∈ (c.sequence id).tokens, tokenFits t = true)
    (full : (k + 1) * c.blockSize ≤ (c.sequence id).length)
    (plain : (c'.device.entry b).hash = noHash)
    (registered : c'.device.Registered p b (c.hashOf id (k + 1)))
    (inscribed : ∀ b', 0 ≤ b' →
      (p.entry b').tokens = if b' = b then c.blockAt id k else (c'.device.entry b').tokens) :
    c.Finds { c' with device := p } id (k + 1) := by
  have before := finds.unlabelled_next publicizes place
  obtain ⟨relabelled, tends, labelled, -⟩ := publicizes
  have same := relabelled.sequence id
  have placed : (c'.deviceTable id)[k]? = some b := by rwa [deviceTable_of_device tends.2.2, same]
  have has := has_of_mem tends.1.device (List.mem_of_getElem? placed)
  have hashOf : ∀ n, c'.hashOf id n = c.hashOf id n := fun n => by
    rw [Cache.hashOf, Cache.hashOf, relabelled.blockSize, same]
  have full' : (k + 1) * c'.blockSize ≤ (c'.sequence id).length := by
    rwa [relabelled.blockSize, same]
  -- without collisions, no other place of the sequence has the hash that is entered
  have unique : ∀ i ≠ k, (i + 1) * c'.blockSize ≤ (c'.sequence id).length →
      c'.hashOf id (i + 1) ≠ c.hashOf id (k + 1) := by
    intro i other full₁ collides
    rw [relabelled.blockSize, same] at full₁
    rw [hashOf] at collides
    exact other (free.tokens_unique fits fits ⟨knows, full₁⟩ ⟨knows, full⟩ collides).1
  constructor
  case found =>
    intro i
    rw [Nat.lt_succ_iff_lt_or_eq, or_and_right, ← or_assoc, ← finds.found i]
    by_cases here : i = k
    · subst here
      have found : { c' with device := p }.cachedAt id i = some b :=
        cachedAt_registered_self tends.1 has ((hashOf _).symm ▸ registered)
          (by rwa [Cache.blockAt, relabelled.blockSize, same]) full'
      simp [found, before, plain]
    · rw [cachedAt_registered_of_ne tends.1 labelled has plain registered inscribed (unique i here)]
      simp [here]
  case unlabelled =>
    intro i after
    rw [← finds.unlabelled i (Nat.le_of_succ_le after)]
    refine exists_congr fun b' => and_congr_right fun listed => ?_
    have placed' : (c'.deviceTable id)[i]? = some b' := by rwa [deviceTable_of_device tends.2.2]
    have different : b' ≠ b := by
      rintro rfl
      have := (labelled.plain_unique tends.1.device plain placed placed').2
      omega
    have has' := has_of_mem tends.1.device (List.mem_of_getElem? placed')
    exact ((registered.hash b' has'.1).trans (if_neg different)).congr_left

theorem Finds.next (knows : c.Knows id) (free : c.CollisionFree)
    (fits : ∀ t ∈ (c.sequence id).tokens, tokenFits t = true)
    (full : (k + 1) * c.blockSize ≤ (c.sequence id).length)
    (posted : c'.Posted c'' b (c.hashOf id (k + 1)) (c.blockAt id k)) : c.Finds c'' id (k + 1) := by
  cases posted with
  | before label result =>
      exact result ▸ finds.skip publicizes place (label ▸ chainHash_succ_ne _ _ _)
  | now plain result registered inscribed =>
      exact result ▸ finds.enter publicizes place knows free fits full plain registered inscribed

end Next

theorem Tidy.finds (tidy : c.Tidy) (free : c.CollisionFree) (sharing : c.sharing = true)
    (knows : c.Knows id) (away : c.isSwapped id = false)
    (fits : ∀ t ∈ (c.sequence id).tokens, tokenFits t = true) :
    (publish id).Returns c fun _ c' => c.Finds c' id (c.publishable id) := by
  refine Action.Yields.returns ?_
  simp only [publish, Action.yields_bind, Action.yields_get, sharing, away, Bool.not_false,
    Bool.and_self, if_true]
  have start : c.Publicizes c id 0 noHash ∧ c.Finds c id 0 :=
    ⟨⟨.refl c, ⟨tidy.tallied, knows, away⟩, tidy.labelled, rfl⟩, by simp, fun _ _ => Iff.rfl⟩
  refine Action.yields_map.mpr <| (Action.yields_foldlM_range
    (fun k hash c' => c.Publicizes c' id k hash ∧ c.Finds c' id k) start ?_).weaken
      (fun _ _ => And.right) fun _ _ holds => holds
  rintro k hash c' before ⟨publicizes, finds⟩
  obtain ⟨full, covered⟩ := tidy.publishable_inside knows before
  refine (publicizes.round sharing (tidy.sized id knows) full covered).weaken ?_ ?_
  · rintro hash' c'' ⟨publicizes', b, place, posted⟩
    obtain rfl := publicizes'.hash
    exact ⟨publicizes', finds.next publicizes place knows free fits full posted⟩
  · exact fun _ _ failed => failed.2 _ (blockHash_chainHash fits k)

end PagedServing.Cache
