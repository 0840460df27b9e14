import PagedServing.Proofs.Cache.Tally
import PagedServing.Proofs.Pool.Count

/-! # Accounts of a cache

The operations of a cache are run on it in any order, and each may return or meet a fault. In every
state that is reached, both pools account for the places of their blocks in block tables: device
blocks for those in the tables of sequences on the device, host blocks for those in the tables of
sequences that are swapped out.
-/

namespace PagedServing

namespace Pool

variable {p : Pool} {held : Int → Nat}

/-- The pool accounts for the places of its blocks: the blocks in use are the others than the free
    ones, each listed once, and as many as differ among the places. -/
structure Reckoned (p : Pool) (places : List Int) : Prop extends p.Accounted places where
  used_nodup : p.used.Nodup
  mem_used : ∀ b, b ∈ p.used ↔ p.Has b ∧ 0 < p.refs b
  freeCount_add : p.freeCount + places.eraseDups.length = p.size

theorem Balanced.reckoned (balanced : p.Balanced held) {places : List Int}
    (counted : ∀ b, places.count b = held b) : p.Reckoned places where
  toAccounted := balanced.accounted counted
  used_nodup := balanced.used_nodup
  mem_used b := by
    rw [balanced.mem_used b]
    constructor
    · intro positive
      have has := balanced.has b positive
      rw [refs_eq, balanced.refs b has]
      exact ⟨has, positive⟩
    · rintro ⟨has, positive⟩
      rwa [refs_eq, balanced.refs b has] at positive
  freeCount_add := by
    have used : places.eraseDups.Perm p.used := by
      rw [List.perm_ext_iff_of_nodup (nodup_eraseDups places) balanced.used_nodup]
      intro b
      rw [balanced.mem_used, ← counted, List.count_pos_iff, List.mem_eraseDups]
    rw [used.length_eq]
    exact balanced.free_add_used

theorem balanced_of_created {count blockSize : Int} (created : Pool.create count blockSize = .ok p) :
    p.Balanced (fun _ => 0) ∧ p.Findable := by
  obtain ⟨-, rfl⟩ := eq_ofSize_of_created created
  exact ⟨ofSize_balanced _ _, fun h b found => by cases found⟩

end Pool

namespace Cache

variable {c : Cache}

/-- What is done to a cache. -/
inductive Operation where
  /-- A sequence is constructed. -/
  | create (draft : Draft)
  /-- It is recorded where a sequence stands. -/
  | mark (id : SeqId) (status : Status) (computed : Int)
  /-- A sequence gets a generated token. -/
  | append (id : SeqId) (token : Int)
  | allocate (id : SeqId)
  | grow (id : SeqId) (tokens : Int)
  | fork (parent child : SeqId)
  | swapOut (id : SeqId)
  | swapIn (id : SeqId)
  | publish (id : SeqId)
  | release (id : SeqId)

namespace Operation

/-- Carry out an operation. -/
def run : Operation → Action Cache Unit
  | create draft => discard (create? draft)
  | mark id status computed => edit id fun s => { s with status, computed }
  | append id token => Cache.append id token
  | allocate id => Cache.allocate id
  | grow id tokens => discard (Cache.grow id tokens)
  | fork parent child => Cache.fork parent child
  | swapOut id => discard (Cache.swapOut id)
  | swapIn id => discard (Cache.swapIn id)
  | publish id => Cache.publish id
  | release id => Cache.release id

/-- An operation is about sequences that exist, and none is swapped out that has no blocks. -/
def Proper (c : Cache) : Operation → Prop
  | create _ => True
  | fork parent child => c.Knows parent ∧ c.Knows child
  | swapOut id => c.Knows id ∧ (c.sequence id).table ≠ []
  | mark id _ _ | append id _ | allocate id | grow id _ | swapIn id | publish id | release id => c.Knows id

instance (c : Cache) : (operation : Operation) → Decidable (operation.Proper c)
  | create _ => inferInstanceAs (Decidable True)
  | fork parent child => inferInstanceAs (Decidable (c.Knows parent ∧ c.Knows child))
  | swapOut id => inferInstanceAs (Decidable (c.Knows id ∧ (c.sequence id).table ≠ []))
  | mark id _ _ | append id _ | allocate id | grow id _ | swapIn id | publish id | release id =>
      inferInstanceAs (Decidable (c.Knows id))

theorem counts (tallied : c.Tallied) (operation : Operation) (proper : operation.Proper c) :
    Counts operation.run c Tallied := by
  cases operation with
  | create draft => exact Action.yields_map.mpr (create_counts tallied draft)
  | mark id status computed => exact edit_counts tallied proper fun _ => rfl
  | append id token => exact append_counts tallied proper token
  | allocate id => exact allocate_counts tallied proper
  | grow id tokens => exact Action.yields_map.mpr (grow_counts tallied proper tokens)
  | fork parent child => exact fork_counts tallied proper.1 proper.2
  | swapOut id => exact Action.yields_map.mpr (swapOut_counts tallied proper.1 proper.2)
  | swapIn id => exact Action.yields_map.mpr (swapIn_counts tallied proper)
  | publish id =>
      exact (publish_counts tallied proper).weaken (fun _ _ holds => holds.1) fun _ _ holds => holds
  | release id => exact release_counts tallied proper

end Operation

/-- The states of a cache that is created and then operated on. -/
inductive Operated (created : Cache) : Cache → Prop where
  | start : Operated created created
  | next {c : Cache} (before : Operated created c) (operation : Operation) (proper : operation.Proper c) :
      Operated created (operation.run.after c)

/-- What holds of references in a state. -/
structure Reckoned (c : Cache) : Prop where
  device : c.device.Reckoned (c.places fun id => !c.isSwapped id)
  host : ∀ p, c.host = some p → p.Reckoned (c.places c.isSwapped)
  swapped : ∀ id, c.isSwapped id = true → c.Knows id ∧ c.host.isSome

theorem Tallied.reckoned (tallied : c.Tallied) : c.Reckoned where
  device := tallied.device.reckoned fun b => by
    rw [count_places]
    exact occurrences_congr (fun id _ => by unfold deviceTable; cases c.isSwapped id <;> rfl) b
  host p found := (tallied.host p found).reckoned fun b => by
    rw [count_places]
    exact occurrences_congr (fun id _ => rfl) b
  swapped id swapped := by
    have member : id ∈ c.swapped := by simpa [isSwapped] using swapped
    exact ⟨tallied.shelved.known id member, tallied.shelved.host id member⟩

theorem tallied_of_empty (empty : c.sequences = {}) (here : c.swapped = [])
    (device : c.device.Balanced fun _ => 0) (findable : c.device.Findable)
    (host : ∀ p, c.host = some p → p.Balanced fun _ => 0) : c.Tallied := by
  have nobody : ∀ (table : SeqId → List Int) (b : Int), occurrences c.sequences.nextId table b = 0 := by
    intro table b
    rw [empty]
    rfl
  refine ⟨device.congr (nobody _), fun p found => (host p found).congr (nobody _), findable, ?_⟩
  constructor <;> simp [here]

theorem tallied_of_created {deviceBlocks blockSize hostBlocks : Int} {sharing : Bool}
    (created : Cache.create deviceBlocks blockSize hostBlocks sharing = .ok c) : c.Tallied := by
  unfold Cache.create at created
  cases device : Pool.create deviceBlocks blockSize with
  | error fault => simp [device, bind, Except.bind] at created
  | ok p =>
      obtain ⟨balanced, findable⟩ := Pool.balanced_of_created device
      by_cases hosted : 0 < hostBlocks
      · cases host : Pool.create hostBlocks blockSize with
        | error fault => simp [device, hosted, host, bind, Except.bind, Functor.map, Except.map] at created
        | ok p' =>
            simp only [device, hosted, host, bind, Except.bind, Functor.map, Except.map, if_true] at created
            split at created
            · obtain rfl := Except.ok.inj created
              refine tallied_of_empty rfl rfl balanced findable fun q found => ?_
              obtain rfl := Option.some.inj found
              exact (Pool.balanced_of_created host).1
            · cases created
      · simp only [device, hosted, bind, Except.bind, pure, Except.pure, if_false] at created
        split at created
        · obtain rfl := Except.ok.inj created
          exact tallied_of_empty rfl rfl balanced findable fun q found => by cases found
        · cases created

theorem Operated.tallied {created : Cache} (start : created.Tallied) (operated : Operated created c) :
    c.Tallied := by
  induction operated with
  | start => exact start
  | next _ operation proper tallied =>
      have counted := operation.counts tallied proper
      exact (counted.weaken (fun _ _ holds => holds) fun _ _ holds => holds.1).after

/-- Whatever is done with a cache, the references of both pools agree with the block tables, and no
    operation ever frees a block that is not allocated. -/
theorem references_counted {created : Cache} {deviceBlocks blockSize hostBlocks : Int} {sharing : Bool}
    (creation : Cache.create deviceBlocks blockSize hostBlocks sharing = .ok created)
    (operated : Operated created c) : c.Reckoned ∧ ∀ operation : Operation, operation.Proper c →
      ¬ operation.run.Fails c fun fault _ => fault.IsFreeing := by
  have tallied := operated.tallied (tallied_of_created creation)
  refine ⟨tallied.reckoned, fun operation proper => ?_⟩
  rintro ⟨fault, c', failed, freeing⟩
  exact ((operation.counts tallied proper).of_error failed).2 freeing

/-- Six device blocks and six host blocks of two tokens each. -/
def sixBlocks : Cache where
  blockSize := 2
  device := .ofSize 6 2
  host := some (.ofSize 6 2)
  sharing := true
  blockSize_pos := by decide

/-- A fork of a sequence is written to, and then the sequence is swapped out while the fork shares
    one of its blocks. -/
theorem references_counted_forked : ∃ c, Operated sixBlocks c ∧ c.Reckoned ∧
    c.places (fun id => !c.isSwapped id) = [0, 2] ∧ c.places c.isSwapped = [0, 1] := by
  let draft : Draft := { prompt := [1, 2, 3], blockSize := 2 }
  have created : Operated sixBlocks sixBlocks := .start
  have covered := (created.next (.create draft) trivial).next
    (.allocate 0) (by decide +kernel)
  have forked := (covered.next (.create draft) trivial).next (.fork 0 1) (by decide +kernel)
  have written := (forked.next (.grow 1 4) (by decide +kernel)).next (.append 1 9) (by decide +kernel)
  have swapped := written.next (.swapOut 0) (by decide +kernel)
  exact ⟨_, swapped, (references_counted (by rfl : Cache.create 6 2 6 true = _) swapped).1,
    by decide +kernel, by decide +kernel⟩

end Cache

end PagedServing
