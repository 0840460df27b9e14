import PagedServing.Proofs.Cache.Findability
import PagedServing.Proofs.Scheduler.Upkeep

/-! # Shared beginnings

In every state that is reached by sequences with blocks of the configured size, whatever the devices
answered and wherever faults were met, a sequence gets the longest chain of blocks that is held for
its beginning. But not all that is published can be found: two sequences with the same beginning,
prefilled together, own blocks with the same hashes, and the hashes are found at the blocks of the
second. Once those are handed out anew, the blocks of the first still carry the hashes, so they are
not published again.
-/

namespace PagedServing.Scheduler

variable {ω : Type} {config : Config} {d : Driven ω} {id : SeqId}

/-- A request for one token. -/
def oneToken (prompt : List Int) : Draft where
  prompt := prompt
  sampling := { Sampling.standard with maxTokens := 1, maxTokens_pos := Nat.one_pos }
  blockSize := 1

/-- A request comes in. -/
def Driven.taking (d : Driven ω) (draft : Draft) : Driven ω :=
  { d with scheduler := (add d.scheduler.cache.sequences.nextId).after ((create draft).after d.scheduler) }

theorem Driven.Reached.taking (reached : Driven.Reached config d) (draft : Draft)
    (knows : ((Scheduler.create draft).after d.scheduler).cache.Knows
      d.scheduler.cache.sequences.nextId) :
    Driven.Reached config (d.taking draft) :=
  (reached.create draft).add knows

/-- With sharing and without collisions, a sequence whose tokens are covered gets the longest chain of
    blocks that the device holds for its beginning, and the oldest other free blocks for the rest. -/
theorem longest_chain_taken (reached : Driven.Reached config d)
    (uniform : d.scheduler.cache.Uniform config.blockSize) (sharing : config.sharing = true)
    (free : d.scheduler.cache.CollisionFree) (knows : d.scheduler.cache.Knows id)
    (fits : ∀ t ∈ (d.scheduler.sequence id).tokens, tokenFits t = true) {c : Cache}
    (allocated : Cache.allocate id d.scheduler.cache = .ok () c) :
    ∃ hits fresh, d.scheduler.cache.Served c id hits fresh := by
  have housed := reached.housed uniform
  exact housed.tidy.served free (housed.sharing.trans sharing) knows fits allocated

/-- The first request has ended, but its blocks are still held when the second begins alike. -/
theorem longest_chain_taken_followed : ∃ (d : Driven Unit) (c : Cache) (hits fresh : List Int),
    Driven.Reached (smallConfig .recompute true) d ∧
      Cache.allocate 1 d.scheduler.cache = .ok () c ∧ d.scheduler.cache.Served c 1 hits fresh ∧
      (c.sequence 1).table = [0, 1, 3] ∧ (c.sequence 1).cached = 2 := by
  have started : Driven.Reached (smallConfig .recompute true) (smallStart .recompute true) := .start 20 ()
  have first := started.taking (oneToken [5, 6]) (by decide +kernel)
  have second := (first.step (some sevens)).create (oneToken [5, 6, 9])
  obtain ⟨_, c, allocated, got⟩ : (Cache.allocate 1).Returns
      ((create (oneToken [5, 6, 9])).after ((Driven.step (some sevens)).after
        ((smallStart .recompute true).taking (oneToken [5, 6]))).scheduler).cache fun _ c =>
      (c.sequence 1).table = [0, 1, 3] ∧ (c.sequence 1).cached = 2 := by decide +kernel
  obtain ⟨hits, fresh, served⟩ := longest_chain_taken second
    ((Cache.uniform_iff rfl 1).mpr (by decide +kernel)) rfl (by decide +kernel) (by decide +kernel)
    (by decide +kernel) allocated
  exact ⟨_, c, hits, fresh, second, allocated, served, got⟩

/-- Two requests with the same prompt were prefilled together. The second one has ended, and its blocks
    were handed out to a third. -/
def outlived : Driven Unit :=
  let prompted := ((smallStart .recompute true).taking { prompt := [5, 6], blockSize := 1 }).taking
    (oneToken [5, 6])
  ((prompted.iterate sevens 1).taking { prompt := [1, 2, 3, 4, 8, 9, 10], blockSize := 1 }).iterate
    sevens 1

theorem outlived_reached : Driven.Reached (smallConfig .recompute true) outlived := by
  have started : Driven.Reached (smallConfig .recompute true) (smallStart .recompute true) := .start 20 ()
  have first := started.taking { prompt := [5, 6], blockSize := 1 } (by decide +kernel)
  have prompted := first.taking (oneToken [5, 6]) (by decide +kernel)
  exact ((prompted.step (some sevens)).taking _ (by decide +kernel)).step (some sevens)

theorem outlived_ready : outlived.scheduler.cache.Uniform 1 ∧ outlived.scheduler.cache.CollisionFree ∧
    outlived.scheduler.cache.Knows 0 ∧ outlived.scheduler.cache.isSwapped 0 = false ∧
    (∀ t ∈ (outlived.scheduler.sequence 0).tokens, tokenFits t = true) ∧
    outlived.scheduler.cache.publishable 0 = 3 :=
  ⟨(Cache.uniform_iff rfl 1).mpr (by decide +kernel), by decide +kernel, by decide +kernel,
    by decide +kernel, by decide +kernel, by decide +kernel⟩

/-- With sharing and without collisions, publishing lets a block be found if it carried no label, and
    otherwise only if some block was found in its place before. -/
theorem published_found_iff (reached : Driven.Reached config d)
    (uniform : d.scheduler.cache.Uniform config.blockSize) (sharing : config.sharing = true)
    (free : d.scheduler.cache.CollisionFree) (knows : d.scheduler.cache.Knows id)
    (away : d.scheduler.cache.isSwapped id = false)
    (fits : ∀ t ∈ (d.scheduler.sequence id).tokens, tokenFits t = true) :
    (Cache.publish id).Returns d.scheduler.cache fun _ c =>
      ∀ i < d.scheduler.cache.publishable id, (c.cachedAt id i).isSome ↔
        d.scheduler.cache.Unlabelled id i ∨ (d.scheduler.cache.cachedAt id i).isSome := by
  have housed := reached.housed uniform
  refine (housed.tidy.finds free (housed.sharing.trans sharing) knows away fits).weaken ?_
  intro _ c finds i before
  rw [finds.found i, and_iff_right before, or_comm]

/-- Of the three blocks that are published, only the third carried no label, and none was found. -/
theorem published_found_iff_outlived : ∃ c, Cache.publish 0 outlived.scheduler.cache = .ok () c ∧
    (∀ i < 3, (c.cachedAt 0 i).isSome ↔ outlived.scheduler.cache.Unlabelled 0 i ∨
      (outlived.scheduler.cache.cachedAt 0 i).isSome) ∧
    ∀ i < 3, (outlived.scheduler.cache.Unlabelled 0 i ∨
      (outlived.scheduler.cache.cachedAt 0 i).isSome) ↔ i = 2 := by
  obtain ⟨uniform, free, knows, away, fits, publishable⟩ := outlived_ready
  obtain ⟨_, c, published, found⟩ := published_found_iff outlived_reached uniform rfl free knows away fits
  rw [publishable] at found
  exact ⟨c, published, found, by decide +kernel⟩

/-- The first two blocks of the first request are full and computed, but after they are published nothing
    is found for them. -/
theorem published_lost : Driven.Reached (smallConfig .recompute true) outlived ∧
    outlived.scheduler.cache.Uniform 1 ∧ outlived.scheduler.cache.CollisionFree ∧
    outlived.scheduler.cache.Knows 0 ∧ outlived.scheduler.cache.isSwapped 0 = false ∧
    (∀ t ∈ (outlived.scheduler.sequence 0).tokens, tokenFits t = true) ∧
    outlived.scheduler.cache.publishable 0 = 3 ∧
    (Cache.publish 0).Returns outlived.scheduler.cache fun _ c =>
      c.cachedAt 0 0 = none ∧ c.cachedAt 0 1 = none ∧ c.cachedAt 0 2 = some 4 := by
  obtain ⟨uniform, free, knows, away, fits, publishable⟩ := outlived_ready
  exact ⟨outlived_reached, uniform, free, knows, away, fits, publishable, by decide +kernel⟩

end PagedServing.Scheduler
