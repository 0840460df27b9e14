import PagedServing.Proofs.Memory.Runs

/-! # Batches read what they should

Whenever a batch is planned, the slots of every position that its sequences have computed
hold the tokens up to that position. This holds with shared blocks if nothing is swapped,
and with swapping if no block is shared.
-/

namespace PagedServing

open Memory (Exact Loose Holds)

namespace Cache

variable {c : Cache} {m : Memory} {id : SeqId}

/-- Every computed position of a sequence has a device slot that holds the tokens up to the
    position. -/
def Readable (c : Cache) (m : Memory) (id : SeqId) : Prop :=
  ∀ position : Nat, position < (c.sequence id).computed →
    ∃ slot, Batch.slot c.blockSize (c.sequence id).table position = .ok slot ∧
      m.device slot = (c.sequence id).tokens.take (position + 1)

theorem Stored.readable (stored : c.Stored m id) (device : c.isSwapped id = false)
    (size : (c.sequence id).blockSize = c.blockSize)
    (computed : (c.sequence id).computed ≤ (c.sequence id).length)
    (covered : (c.sequence id).length ≤ (c.sequence id).table.length * c.blockSize) :
    c.Readable m id := by
  intro position before
  have inside : position < (c.sequence id).table.length * (c.sequence id).blockSize := by
    rw [size]
    omega
  have block : position / c.blockSize < (c.sequence id).table.length := by
    rw [size] at inside
    exact (Nat.div_lt_iff_lt_mul c.blockSize_pos).mpr inside
  have slot := Batch.slot_eq inside
  have holds := stored (position / c.blockSize) _ (List.getElem?_eq_getElem block)
    (position % c.blockSize) (Nat.mod_lt _ c.blockSize_pos) (by rwa [Nat.div_add_mod'])
  simp only [slotsOf, device, Bool.false_eq_true, if_false, Nat.div_add_mod'] at holds
  rw [size] at slot
  refine ⟨_, slot, ?_⟩
  rw [Batch.slotOf, size, List.getD_eq_getElem?_getD, List.getElem?_eq_getElem block]
  exact holds

theorem Backed.holds (backed : c.Backed m) (distinct : c.Distinct) {h b : Int}
    (found : c.device.registry.get? h = some b) :
    (∃ id i, c.Full id i ∧ c.hashOf id (i + 1) = h) ∧
      ∀ id i, c.Full id i → c.hashOf id (i + 1) = h → ∀ k < c.blockSize,
        m.device (b * c.blockSize + k) = (c.sequence id).tokens.take (i * c.blockSize + k + 1) := by
  obtain ⟨id, i, full, hash, _⟩ := backed.published h b found
  refine ⟨⟨id, i, full, hash⟩, fun id i full hash k inside => ?_⟩
  refine backed.served distinct full (hash ▸ found) k inside ?_
  rw [Nat.add_mul, Nat.one_mul]
  omega

end Cache

namespace Scheduler

variable {ω : Type} {config : Config} {device : Device ω} {d : Driven ω} {m : Memory}
  {p : Prepared} {s : Scheduler} {b : Batch} {c : Cache} {slack : Prop}

theorem Planned.readable (planned : Planned c s b slack) (backed : s.cache.Backed m) :
    ∀ id ∈ b.sequences, s.cache.Readable m id := by
  intro id member
  have fitted := planned.fitted
  have knows := fitted.knows id member
  exact (backed.stored id knows).readable (fitted.device id member)
    (planned.orderly.sound.filed.sized id knows) (fitted.progressed id member).computed
    (fitted.covered id member)

/-- With shared blocks and without swapping: a batch finds the computed tokens of its
    sequences, and published blocks hold the tokens that their hashes stand for. -/
theorem prefix_cache_sound (valid : device.Valid) (mode : config.preemption = .recompute)
    (remembered : Remembered config device Exact d m) (prepared : prepare d.scheduler = .ok p s)
    (free : config.sharing = true → s.cache.CollisionFree) :
    (∀ id ∈ p.batch.sequences, s.cache.Readable m id) ∧
      ∀ h block, s.cache.device.registry.get? h = some block →
        (∃ id i, s.cache.Full id i ∧ s.cache.hashOf id (i + 1) = h) ∧
        ∀ id i, s.cache.Full id i → s.cache.hashOf id (i + 1) = h → ∀ k < s.cache.blockSize,
          m.device (block * s.cache.blockSize + k) =
            (s.sequence id).tokens.take (i * s.cache.blockSize + k + 1) := by
  obtain ⟨orderly, same⟩ := remembered.reachable.orderly valid
  obtain ⟨planned, config'⟩ := planned_of_prepare orderly prepared
  have mode' : s.config.preemption = .recompute := by rw [config', same, mode]
  have distinct : s.cache.Distinct := by
    refine ⟨planned.orderly.sound.filed.fits, fun on => free ?_⟩
    rw [← same, ← config', ← planned.orderly.configured.sharing, on]
  have backed := remembered.backed (valid.bounded config) (Or.inl mode)
    (fun planned _ config settled distinct backed memory =>
      settled.exact planned (config ▸ mode) distinct backed memory)
    (planned.extends.distinct distinct)
  have backed := (planned.still (m := m) mode').1.backed distinct backed
  exact ⟨planned.readable backed, fun h block found => backed.holds distinct found⟩

/-- The second request begins with a block that the first has published. -/
def prompted : Driven Unit :=
  (((smallStart .recompute true).request [1, 2]).iterate sevens 1).request [1, 3]

theorem prompted_reachable : Reachable (smallConfig .recompute true) sevens prompted := by
  have one := (smallStart_reachable .recompute true).requestSeven [1, 2] (by decide)
  exact (one.iterate 1).requestSeven [1, 3] (by decide)

theorem prefix_cache_sound_prompted :
    ∃ m p s, Remembered (smallConfig .recompute true) sevens Exact prompted m ∧
      prepare prompted.scheduler = .ok p s ∧ p.batch.sequences = [0, 1] ∧
      (s.sequence 1).computed = 1 ∧ ∀ id ∈ p.batch.sequences, s.cache.Readable m id := by
  obtain ⟨m, remembered⟩ := prompted_reachable.remembered (sevens_valid.bounded _) Exact.total
  have cached : prepare.Returns prompted.scheduler fun p s =>
      p.batch.sequences = [0, 1] ∧ (s.sequence 1).computed = 1 ∧ s.cache.CollisionFree := by
    decide +kernel
  obtain ⟨p, s, prepared, sequences, computed, free⟩ := cached
  obtain ⟨readable, _⟩ := prefix_cache_sound sevens_valid rfl remembered prepared fun _ => free
  exact ⟨m, p, s, remembered, prepared, sequences, computed, readable⟩

/-- With swapping and without shared blocks, whatever becomes of the batches: after its block
    operations a batch finds the computed tokens of its sequences. -/
theorem swapped_memory_sound (mode : config.sharing = false)
    (remembered : Remembered config device Loose d m) (prepared : prepare d.scheduler = .ok p s) :
    ∀ id ∈ p.batch.sequences, s.cache.Readable (m.moved p.batch) id := by
  -- without sharing no token is hashed, so that the device may answer any numbers
  have bounded : device.Bounded config := fun sharing => by simp [mode] at sharing
  obtain ⟨orderly, same⟩ := remembered.reachable.orderly_of_bounded bounded
  obtain ⟨planned, config'⟩ := planned_of_prepare orderly prepared
  have mode' : s.config.sharing = false := by rw [config', same, mode]
  have distinct := planned.orderly.sound.distinct_of_plain
    (planned.orderly.configured.sharing.trans mode')
  have backed := remembered.backed bounded (Or.inr mode)
    (fun planned sound config settled distinct backed memory =>
      settled.loose planned sound (config ▸ mode) distinct backed memory)
    (planned.extends.distinct distinct)
  exact planned.readable (planned.backed orderly.sound (Or.inr mode') distinct backed)

/-- A device that fails at first. Then it gives up a step, and then it answers numbers that are no
    tokens. -/
def faltering : Device Nat where
  execute b _ calls :=
    ({ result := match calls with
        | 0 => .error "device lost"
        | 1 => .ok (b.sequences.map fun _ => { token := -1, success := false })
        | 2 => .ok (b.sequences.map fun _ => { token := -1 })
        | _ => .ok (b.sequences.map fun _ => { token := 7 }) }, calls + 1)

theorem unshared_bounded {ω : Type} (device : Device ω) (preemption : Preemption) :
    device.Bounded (smallConfig preemption false) := nofun

/-- Two requests have failed. Three others share a device that has room for two of them. -/
def crowded : Driven Nat :=
  let start : Driven Nat := ⟨start (smallConfig .swap false) 20, 0⟩
  let failed := (((start.request [4]).iterate faltering 1).request [5]).iterate faltering 1
  (((failed.request [1]).request [2]).request [3]).iterate faltering 8

theorem Reachable.requestUnshared {d : Driven Nat}
    (reachable : Reachable (smallConfig .swap false) faltering d) (prompt : List Int)
    (some : prompt ≠ []) : Reachable (smallConfig .swap false) faltering (d.request prompt) := by
  obtain ⟨orderly, config⟩ := reachable.orderly_of_bounded (unshared_bounded _ _)
  refine reachable.request orderly some fun sharing => ?_
  rw [orderly.configured.sharing, config] at sharing
  cases sharing

theorem crowded_reachable : Reachable (smallConfig .swap false) faltering crowded := by
  have first := (Reachable.start 20 0).requestUnshared [4] (by decide)
  have second := (first.iterate 1).requestUnshared [5] (by decide)
  have third := (second.iterate 1).requestUnshared [1] (by decide)
  have fourth := third.requestUnshared [2] (by decide)
  exact (fourth.requestUnshared [3] (by decide)).iterate 8

theorem swapped_memory_sound_crowded :
    ∃ m p s, Remembered (smallConfig .swap false) faltering Loose crowded m ∧
      prepare crowded.scheduler = .ok p s ∧ p.batch.sequences = [3, 4] ∧
      p.batch.swapIn.entries = [(0, 1), (1, 6), (2, 0), (3, 10)] ∧
      (s.sequence 4).computed = 3 ∧
      ∀ id ∈ p.batch.sequences, s.cache.Readable (m.moved p.batch) id := by
  obtain ⟨m, remembered⟩ := crowded_reachable.remembered (unshared_bounded _ _) Loose.total
  have resumed : prepare.Returns crowded.scheduler fun p s =>
      p.batch.sequences = [3, 4] ∧ p.batch.swapIn.entries = [(0, 1), (1, 6), (2, 0), (3, 10)] ∧
        (s.sequence 4).computed = 3 := by
    decide +kernel
  obtain ⟨p, s, prepared, sequences, swapIn, computed⟩ := resumed
  exact ⟨m, p, s, remembered, prepared, sequences, swapIn, computed,
    swapped_memory_sound rfl remembered prepared⟩

end Scheduler

end PagedServing
