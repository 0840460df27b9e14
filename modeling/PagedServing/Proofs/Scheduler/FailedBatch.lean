import PagedServing.Proofs.Scheduler.Progress
import PagedServing.Proofs.Scheduler.Targets

/-! # Batches that fail as a whole

The sequences of a failed batch end and publish what they had computed before. For a sequence
that was to come back from the host these are blocks that may never have been written.
-/

namespace PagedServing.Scheduler

variable {ω : Type} {config : Config} {device : Device ω} {d : Driven ω} {p : Prepared}
  {s s' : Scheduler}

/-- After the batch of a reached state has failed, no hash leads to the target of one of its
    copies to the device exactly if no sequence of the batch had computed such a block as a
    whole. -/
theorem failedBatch_unpublished_iff (valid : device.Valid) (sharing : config.sharing = true)
    (reachable : Reachable config device d) (prepared : prepare d.scheduler = .ok p s)
    {e : Execution} (failure : ∀ samples, e.result = .ok samples → samples.length ≠ p.batch.size) :
    (settle p e).Returns s fun _ s' =>
      (∀ h b, s'.cache.device.registry.get? h = some b → b ∉ p.batch.swapIn.values) ↔
        ∀ id ∈ p.batch.sequences, ∀ (i : Nat) b, (s.cache.sequence id).table[i]? = some b →
          b ∈ p.batch.swapIn.values →
            (s.cache.sequence id).computed < ((i + 1) * s.cache.blockSize : Nat) := by
  obtain ⟨orderly, config'⟩ := reachable.orderly valid
  have paced := reachable.paced valid
  obtain ⟨planned, same, arranged⟩ := (prepare_returns orderly).of_run prepared
  obtain ⟨s₁, s₂, plan, mustered⟩ := arranged.mustered orderly paced
  have all : ∀ id ∈ s.running, id ∈ p.batch.sequences := fun id runs =>
    (arranged.assembled orderly paced).members.mem_iff.mpr runs
  have outstanding := mustered.outstanding planned.orderly
  have sound := planned.orderly.sound
  refine settle_failing failure fun text journal => ?_
  refine (failBatch_returns (planned.orderly.reported journal) planned.nodup planned.running
    text).weaken ?_
  rintro _ s' ⟨_, _, results⟩
  have published : s.cache.PublishedEach s'.cache p.batch.sequences :=
    (results all).2.congr (fun _ => rfl) (fun _ _ _ _ => Cache.publishes_reported) fun _ => rfl
  constructor
  · intro unpublished id member i b place target
    by_contra done
    obtain ⟨owner, _, resumed, held, plain⟩ := outstanding.targets b target
    have running := planned.running id member
    have side := planned.orderly.device_of_running running
    have mine : b ∈ s.cache.deviceTable id := Cache.mem_deviceTable side place
    have blank : s.cache.Blank [owner] b := ⟨owner, List.mem_singleton_self owner, held, plain⟩
    obtain rfl := List.mem_singleton.mp (blank.holder sound mine)
    have on : s.cache.sharing = true := by
      rw [planned.orderly.configured.sharing, same, config', sharing]
    have publishes : s.cache.Publishes id
        (chainHash s.cache.blockSize (s.cache.sequence id).tokens (i + 1)) b i :=
      ⟨side, on, Int.le_of_not_gt done, place, rfl, plain⟩
    -- the first block that is found is one of a resumed sequence or of one behind it
    obtain ⟨front, rest, split⟩ := List.append_of_mem member
    have suffix : (id :: rest) <:+ p.batch.sequences := ⟨front, split.symm⟩
    obtain ⟨other, among, b', i', publishes', found⟩ :=
      published.found (id :: rest) suffix id List.mem_cons_self _ b i publishes
    exact unpublished _ b' found
      (outstanding.publishes id rest suffix resumed other among _ b' i' publishes')
  · intro uncomputed h b found target
    rcases published.origin found with before | ⟨id, member, i, publishes⟩
    · obtain ⟨_, _, _, _, plain⟩ := outstanding.targets b target
      obtain ⟨_, hash, real⟩ := sound.labelled.coherent h b before
      exact real (hash.symm.trans plain)
    · exact Int.not_lt.mpr publishes.computed (uncomputed id member i b publishes.place target)

/-- An execution that raised an error. -/
def lost : Execution where
  result := .error "device lost"

theorem lost_fails {b : Batch} : ∀ samples, lost.result = .ok samples → samples.length ≠ b.size := by
  intro samples answer
  cases answer

/-- Three requests share a device that has room for two of them, and the third is about to come
    back from the host. -/
def returning : Driven Unit :=
  ((((smallStart .swap true).request [1]).request [2]).request [3]).iterate sevens 7

theorem returning_reachable : Reachable (smallConfig .swap true) sevens returning := by
  have two := ((smallStart_reachable .swap true).requestSeven [1] (by decide)).requestSeven
    [2] (by decide)
  exact (two.requestSeven [3] (by decide)).iterate 7

theorem failedBatch_unpublished_iff_returning :
    ∃ p s, prepare returning.scheduler = .ok p s ∧ (settle p lost).Returns s fun _ s' =>
      (∀ h b, s'.cache.device.registry.get? h = some b → b ∉ p.batch.swapIn.values) ↔
        ∀ id ∈ p.batch.sequences, ∀ (i : Nat) b, (s.cache.sequence id).table[i]? = some b →
          b ∈ p.batch.swapIn.values →
            (s.cache.sequence id).computed < ((i + 1) * s.cache.blockSize : Nat) := by
  obtain ⟨orderly, _⟩ := returning_reachable.orderly sevens_valid
  obtain ⟨p, s, prepared, _⟩ := prepare_returns orderly
  exact ⟨p, s, prepared, failedBatch_unpublished_iff sevens_valid rfl returning_reachable prepared
    lost_fails⟩

/-- The batch that brings the third request back fails, and a block that one of its host blocks
    was to be copied to is found from then on. -/
theorem failedBatch_published :
    Reachable (smallConfig .swap true) sevens returning ∧
      ∃ p s, prepare returning.scheduler = .ok p s ∧
        p.batch.swapIn.entries = [(0, 8), (1, 2), (2, 9), (3, 6)] ∧
        (settle p lost).Returns s fun _ s' =>
          s'.cache.device.registry.get? 13361037350151369407 = some 8 ∧
            8 ∈ p.batch.swapIn.values := by
  have published : prepare.Returns returning.scheduler fun p s =>
      p.batch.swapIn.entries = [(0, 8), (1, 2), (2, 9), (3, 6)] ∧
        (settle p lost).Returns s fun _ s' =>
          s'.cache.device.registry.get? 13361037350151369407 = some 8 ∧
            8 ∈ p.batch.swapIn.values := by
    decide +kernel
  obtain ⟨p, s, prepared, entries, found⟩ := published
  exact ⟨returning_reachable, p, s, prepared, entries, found⟩

end PagedServing.Scheduler
