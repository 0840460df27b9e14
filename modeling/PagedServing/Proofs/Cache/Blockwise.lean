import PagedServing.Proofs.Cache.Tally

/-! # Covering block by block

A sequence is covered with one block after the other. Each is the block that the cache serves, which
keeps what it holds, or the oldest free one.
-/

namespace PagedServing

theorem blockHash_fits {before : Int} {tokens : List Int} (chained : hashFits before = true)
    (fits : ∀ t ∈ tokens, tokenFits t = true) :
    ∃ hash, blockHash before tokens = .ok hash ∧ hashFits hash = true := by
  refine ⟨_, by rw [blockHash, chained, List.all_eq_true.mpr fits]; rfl, ?_⟩
  have bounded := UInt64.toNat_lt (Digest.xxh64 (blockBytes before tokens))
  simp only [hashFits, Bool.or_eq_true, Bool.and_eq_true]
  right
  exact ⟨decide_eq_true (Int.natCast_nonneg _), decide_eq_true (Int.ofNat_lt.mpr bounded)⟩

namespace Pool

/-- The block `b` got one more holder, without losing what it holds. -/
structure Kept (p q : Pool) (b : Int) : Prop where
  has : p.Has b
  recounted : p.Recounted q b ((p.entry b).refs + 1)
  free : q.free = p.free.erase b

/-- The oldest free block `b` was handed out for new content. -/
structure Taken (p q : Pool) (b : Int) : Prop where
  free : p.free = b :: q.free
  renewed : p.Renewed q [b]

variable {p : Pool} {held : Int → Nat} {b : Int}

theorem shareOne_keeps (balanced : p.Balanced held) (used : b ∈ p.used) :
    (shareOne b).Returns p fun _ q =>
      q.Balanced (fun b' => held b' + [b].count b') ∧ p.Kept q b := by
  have holder := (balanced.mem_used b).mp used
  have has := balanced.has b holder
  have held_eq := balanced.refs b has
  have unlisted : b ∉ p.free := fun free => by
    have := ((balanced.mem_free b).mp free).2
    omega
  refine (shareOne_recounts balanced holder).weaken ?_
  rintro _ q ⟨recounted, free⟩
  refine ⟨recounted.balanced balanced has fun b => by grind, has, held_eq ▸ recounted, ?_⟩
  rw [free, List.erase_of_not_mem unlisted]

theorem revive_keeps (balanced : p.Balanced held) (has : p.Has b) (unused : b ∉ p.used) :
    (revive b).Returns p fun _ q =>
      q.Balanced (fun b' => held b' + [b].count b') ∧ p.Kept q b := by
  have unheld : held b = 0 :=
    Nat.eq_zero_of_not_pos fun holder => unused ((balanced.mem_used b).mpr holder)
  have refs := (balanced.refs b has).trans unheld
  refine (revive_recounts balanced has unheld).weaken ?_
  rintro _ q ⟨recounted, free⟩
  exact ⟨recounted.balanced balanced has fun b => by grind, has, by rwa [refs], free⟩

end Pool

namespace Cache

variable {c c' : Cache} {id : SeqId} {chain chain' : Chain} {hash b : Int} {tokens : List Int}

/-- The next block of the sequence `id` is `b`: the one that the cache serves under the next hash, or
    the oldest free one. -/
structure Covers (c c' : Cache) (id : SeqId) (chain chain' : Chain) (hash : Int) (tokens : List Int)
    (b : Int) : Prop where
  tends : Tends id c'
  replaced : c.Replaced c' id { c.sequence id with table := (c.sequence id).table ++ [b] }
  swapped : c'.swapped = c.swapped
  hit : ∀ b', c.served? chain hash tokens = some b' → b = b' ∧ c.device.Kept c'.device b ∧
    chain' = { chain with hash, found := chain.found + c.blockSize }
  miss : c.served? chain hash tokens = none → c.device.Taken c'.device b ∧
    chain' = { chain with hash, missed := true }

theorem Covers.freeCount (covers : c.Covers c' id chain chain' hash tokens b) :
    c.device.freeCount ≤ c'.device.freeCount + 1 := by
  unfold Pool.freeCount
  cases served : c.served? chain hash tokens with
  | none => simp [(covers.miss served).1.free]
  | some b' =>
      rw [(covers.hit b' served).2.1.free, List.length_erase]
      split <;> omega

/-- The hash of the next block, which is computed if the block is full. -/
def NextHash (c : Cache) (chain : Chain) (tokens : List Int) (hash : Int) : Prop :=
  if tokens.length = c.blockSize then blockHash chain.hash tokens = .ok hash else hash = noHash

theorem NextHash.eq_pure (next : c.NextHash chain tokens hash) :
    (if tokens.length = c.blockSize then Action.ofExcept (blockHash chain.hash tokens)
      else pure noHash : Action Cache Int) = pure hash := by
  unfold NextHash at next
  split at next
  · rw [if_pos ‹_›, next]
    rfl
  · rw [if_neg ‹_›, next]

/-- One block of a sequence is covered, if a block is found for it. -/
theorem coverBlock_covers (tends : Tends id c) {index : Nat}
    (block : (c.sequence id).block index = .ok tokens) (next : c.NextHash chain tokens hash)
    (enough : c.served? chain hash tokens = none → 0 < c.device.freeCount) :
    (coverBlock id chain index).Returns c fun chain' c' =>
      ∃ b, c.Covers c' id chain chain' hash tokens b := by
  have tallied := tends.1
  simp only [coverBlock, look, Action.returns_bind, Action.returns_get, Action.returns_pure, block,
    Action.returns_ofExcept, Except.ok.injEq, exists_eq_left', Action.returns_ite_bind, next.eq_pure]
  cases served : c.served? chain hash tokens with
  | none =>
      simp only [Action.returns_bind, returns_onDevice, returns_edit, Action.returns_pure]
      refine (Pool.allocateOne_takes tallied.device (enough served)).weaken ?_
      rintro b p ⟨free, balanced, renewed⟩
      refine ⟨b, tends.extended balanced (tallied.findable.of_renewed renewed) rfl,
        replaced_with tends.2.1 p c.host c.swapped fun s => { s with table := s.table ++ [b] }, rfl,
        fun b' served' => ?_, fun _ => ⟨⟨free, renewed⟩, rfl⟩⟩
      rw [served] at served'
      cases served'
  | some b =>
      have has := tallied.findable _ _ (registered_of_served served).2.2
      -- shared or revived, the block joins the table in the same way
      have joined : ∀ p : Pool, p.Balanced (fun b' => c.deviceHolders b' + [b].count b') →
          c.device.Kept p b → c.Covers { c with
              device := p
              sequences := c.sequences.update id fun s => { s with table := s.table ++ [b] } } id chain
            { chain with hash, found := chain.found + c.blockSize } hash tokens b := by
        intro p balanced kept
        refine ⟨tends.extended balanced (tallied.findable.of_agrees kept.recounted.agrees) rfl,
          replaced_with tends.2.1 p c.host c.swapped fun s => { s with table := s.table ++ [b] }, rfl,
          fun b' served' => ?_, fun none => ?_⟩
        · rw [served] at served'
          exact ⟨Option.some.inj served', kept, rfl⟩
        · rw [served] at none
          cases none
      dsimp only
      split
      · simp only [Action.returns_bind, returns_onDevice, returns_edit, Action.returns_pure]
        refine (Pool.shareOne_keeps tallied.device ‹_›).weaken ?_
        rintro _ p ⟨balanced, kept⟩
        exact ⟨b, joined p balanced kept⟩
      · simp only [Action.returns_bind, Action.returns_discard, returns_onDevice, returns_edit,
          Action.returns_pure]
        refine (Pool.revive_keeps tallied.device has ‹_›).weaken ?_
        rintro _ p ⟨balanced, kept⟩
        exact ⟨b, joined p balanced kept⟩

theorem coverBlock_yields (tends : Tends id c) (chain : Chain) (index : Nat) :
    (coverBlock id chain index).Yields c
      (fun chain' c' => ∃ tokens hash b, (c.sequence id).block index = .ok tokens ∧
        c.NextHash chain tokens hash ∧ c.Covers c' id chain chain' hash tokens b)
      fun _ c' => c' = c := by
  cases block : (c.sequence id).block index with
  | error fault =>
      simp [coverBlock, look, block]
  | ok tokens =>
      by_cases next : ∃ hash, c.NextHash chain tokens hash
      · obtain ⟨hash, next⟩ := next
        by_cases enough : c.served? chain hash tokens = none → 0 < c.device.freeCount
        · refine Action.Returns.yields ((coverBlock_covers tends block next enough).weaken ?_)
          rintro chain' c' ⟨b, covers⟩
          exact ⟨tokens, hash, b, rfl, next, covers⟩
        · obtain ⟨served, few⟩ := Classical.not_imp.mp enough
          have free : c.device.free = [] := List.length_eq_zero_iff.mp (Nat.eq_zero_of_not_pos few)
          simp only [coverBlock, look, Action.yields_bind, Action.yields_get, Action.yields_pure, block,
            Action.yields_ofExcept, Except.ok.injEq, forall_eq', reduceCtorEq, forall_true_iff,
            and_true]
          rw [Action.yields_ite_bind, next.eq_pure, Action.yields_pure, served]
          simp [onDevice, Pool.allocateOne, free]
      · have full : tokens.length = c.blockSize := by
          by_contra short
          exact next ⟨noHash, by simp [NextHash, short]⟩
        simp only [NextHash, full, if_true, not_exists] at next
        simp [coverBlock, look, block, full, next]

end Cache

end PagedServing
