import PagedServing.Proofs.Memory.Moves
import PagedServing.Proofs.Scheduler.Participation

/-! # Blocks that are copied to

A sequence that comes back from the host gets new blocks, and its batch names all of them as
targets of copies. Until the batch is settled they carry no labels. Among the sequences that
were let run, only such ones have computed blocks without a label, and they come behind those
that went on running.
-/

namespace PagedServing.Scheduler

open Cache (Gathered Moves)

variable {s t t' : Scheduler} {plan plan' : Plan} {id : SeqId} {c c' : Cache}
  {moves more : Moves}

theorem Furnished.targets {tables : SeqId → List Int} {count : Nat} {ids : List SeqId}
    (furnished : Furnished c c' id more) (gathered : Gathered tables ids moves)
    (single : ∀ b, Cache.occurrences count tables b ≤ 1) (inside : id < count)
    (insides : ∀ other ∈ ids, other < count) (new : id ∉ ids)
    (own : c.isSwapped id = true → tables id = (c.sequence id).table) :
    ∃ blocks, Gathered tables (id :: ids) (moves.insertAll more.entries) ∧
      (∀ b, b ∈ (moves.insertAll more.entries).values ↔ b ∈ moves.values ∨ b ∈ blocks) ∧
      (∀ b ∈ blocks, c.isSwapped id = true ∧ b ∈ (c'.sequence id).table ∧
        (c'.device.entry b).hash = noHash) ∧
      (c'.Marked id ∨ (c'.sequence id).table = blocks) := by
  cases furnished with
  | anew marked =>
      exact ⟨[], gathered.widen id, fun b => by simp [OrderedMap.insertAll], by simp, Or.inl marked⟩
  | @back blocks swapped table length plain =>
      rw [← own swapped] at length ⊢
      obtain ⟨entries, gathered'⟩ := gathered.next single inside insides new length
      refine ⟨blocks, gathered', fun b => ?_, fun b member => ?_, Or.inr table⟩
      · rw [OrderedMap.values, entries, List.map_append,
          List.map_snd_zip (Nat.le_of_eq length), List.mem_append]
        rfl
      · exact ⟨swapped, table.symm ▸ member, plain b member⟩

/-- How the targets stand after some admissions to `s`. -/
structure Targeted (s t : Scheduler) (moves : Moves) : Prop where
  knows : ∀ id, t.cache.Knows id ↔ s.cache.Knows id
  others : ∀ id, id ∉ t.running → t.cache.sequence id = s.cache.sequence id ∧
    t.cache.isSwapped id = s.cache.isSwapped id
  gathered : Gathered s.cache.hostTable t.running moves
  targets : ∀ b ∈ moves.values, ∃ id ∈ t.running, s.cache.isSwapped id = true ∧
    b ∈ t.cache.deviceTable id ∧ (t.cache.device.entry b).hash = noHash
  computed : ∀ id ∈ t.running, id ∉ s.running → ∀ (i : Nat) b,
    (t.cache.sequence id).table[i]? = some b →
      ((i + 1 : Nat) * t.cache.blockSize : Int) ≤ (t.cache.sequence id).computed →
        (t.cache.device.entry b).hash ≠ noHash ∨ b ∈ moves.values

theorem Targeted.start (s : Scheduler) : s.Targeted s {} := by
  constructor
  case knows => exact fun _ => Iff.rfl
  case others => exact fun _ _ => ⟨rfl, rfl⟩
  case gathered => exact ⟨List.nodup_nil, fun b none => absurd none List.not_mem_nil⟩
  case targets => exact fun b none => absurd none List.not_mem_nil
  case computed => exact fun id runs outside => absurd runs outside

/-- One more sequence is let run. -/
theorem Entered.targeted (entered : t.Entered t' plan plan' id) (sound : s.cache.Sound)
    (targeted : s.Targeted t plan.swapIn) : s.Targeted t' plan'.swapIn := by
  obtain ⟨more, furnished, swapIn⟩ := entered.furnished
  have fresh := targeted.others id entered.outside
  have knowsId := (targeted.knows id).mp entered.handled.knows
  have insides : ∀ other ∈ t.running, other < s.cache.sequences.nextId := fun other runs =>
    (targeted.knows other).mp (entered.before.lined.running other runs).1
  have own : t.cache.isSwapped id = true →
      s.cache.hostTable id = (t.cache.sequence id).table := by
    intro swapped
    rw [Cache.hostTable_of_swapped (fresh.2.symm.trans swapped), fresh.1]
  obtain ⟨blocks, gathered, values, new, table⟩ := furnished.targets targeted.gathered
    sound.balanced.host_single knowsId insides entered.outside own
  rw [← swapIn] at gathered values
  -- whoever ran before keeps its blocks, and they keep their labels
  have device : ∀ {other}, other ∈ t.running →
      t'.cache.deviceTable other = t.cache.deviceTable other := by
    intro other runs
    simp only [Cache.deviceTable, entered.handled.swapped other (entered.ne_of_runs runs),
      entered.kept runs]
  have self : t'.cache.deviceTable id = (t'.cache.sequence id).table :=
    Cache.deviceTable_of_device (entered.after.device_of_running entered.runs)
  constructor
  case knows => exact fun other => (entered.handled.knows_iff other).trans (targeted.knows other)
  case others =>
    intro other stands
    obtain ⟨different, outside⟩ := not_or.mp (mt entered.mem_running.mpr stands)
    obtain ⟨same, swapped⟩ := targeted.others other outside
    exact ⟨(entered.handled.others other different).trans same,
      (entered.handled.swapped other different).trans swapped⟩
  case gathered =>
    refine ⟨gathered.distinct, fun b member => ?_⟩
    obtain ⟨other, among, host⟩ := gathered.keys b member
    exact ⟨other, entered.running_perm.mem_iff.mpr among, host⟩
  case targets =>
    intro b target
    rcases (values b).mp target with old | member
    · obtain ⟨other, runs, swapped, member, plain⟩ := targeted.targets b old
      have natural := (entered.before.sound.balanced.has_of_mem member).1
      exact ⟨other, entered.mem_running.mpr (Or.inr runs), swapped, (device runs).symm ▸ member,
        entered.supplied.plain natural plain⟩
    · obtain ⟨swapped, member, plain⟩ := new b member
      exact ⟨id, entered.runs, fresh.2.symm.trans swapped, self.symm ▸ member, plain⟩
  case computed =>
    intro other runs outside i b place done
    rcases entered.mem_running.mp runs with rfl | before
    · rcases table with marked | same
      · exact Or.inl (marked i b place done)
      · exact Or.inr ((values b).mpr (Or.inr (same ▸ List.mem_of_getElem? place)))
    · rw [entered.kept before] at place done
      rw [entered.handled.blockSize] at done
      rcases targeted.computed other before outside i b place done with labelled | target
      · left
        have member := Cache.mem_deviceTable (entered.before.device_of_running before) place
        rw [entered.supplied.kept entered.before.sound member]
        exact labelled
      · exact Or.inr ((values b).mpr (Or.inl target))

/-- What the blocks of a planned batch are like, whose targets are the blocks of resumed
    sequences: from the first of these on, only targets would be published. -/
structure Outstanding (s : Scheduler) (b : Batch) (resumed : SeqId → Prop) : Prop where
  targets : ∀ target ∈ b.swapIn.values, ∃ id ∈ b.sequences, resumed id ∧
    target ∈ s.cache.deviceTable id ∧ (s.cache.device.entry target).hash = noHash
  publishes : ∀ id rest, (id :: rest) <:+ b.sequences → resumed id → ∀ other ∈ id :: rest,
    ∀ h target i, s.cache.Publishes other h target i → target ∈ b.swapIn.values

theorem Enlarged.place (enlarged : Enlarged s.cache c) (orderly : s.Orderly [] [])
    (runs : id ∈ s.running) {i : Nat} {b : Int} (place : (c.sequence id).table[i]? = some b)
    (inside : (i + 1) * s.cache.blockSize ≤ (s.cache.sequence id).length) :
    (s.cache.sequence id).table[i]? = some b := by
  obtain ⟨knows, status⟩ := orderly.lined.running id runs
  have placed := orderly.staged.placed id knows List.not_mem_nil
  have capacity := (placed.running status).2.length_le_capacity
  rw [orderly.sound.filed.sized id knows] at capacity
  have covered : i < (s.cache.sequence id).table.length := by
    have := Nat.le_of_mul_le_mul_right (inside.trans capacity)
      s.cache.blockSize_pos
    omega
  rcases enlarged id with same | ⟨_, more, self⟩
  · rw [same] at place
    exact place
  · rw [self, List.getElem?_append_left covered] at place
    exact place

theorem Mustered.behind {s₁ s₂ : Scheduler} {b : Batch} (mustered : s.Mustered s₁ s₂ plan t b)
    {rest : List SeqId} (suffix : (id :: rest) <:+ s₂.running) (shelved : id ∈ s₁.preempted)
    {other : SeqId} (member : other ∈ id :: rest) : other ∉ s₁.running := by
  intro runs
  have before := (List.pairwise_append.mp mustered.ranked₁).2.2 other runs id shelved
  rw [← (mustered.advanced.keeps mustered.ranked₁).1.precedes] at before
  rcases List.mem_cons.mp member with rfl | later
  · have status := (mustered.orderly₁.lined.running other runs).2
    simp [(mustered.orderly₁.lined.preempted other shelved).2] at status
  · have ranked : s₂.Ranked (id :: rest) :=
      ((List.pairwise_append.mp mustered.ranked₂).1).sublist suffix.sublist
    simp [precedes_asymm (ranked.first later)] at before

theorem Mustered.outstanding {s₁ s₂ : Scheduler} {b : Batch} {grown : List SeqId}
    (mustered : s.Mustered s₁ s₂ plan t b) (orderly : t.Orderly [] grown) :
    t.Outstanding b fun id => s₁.cache.isSwapped id = true := by
  have sequences : b.sequences = s₂.running := by
    rw [mustered.built.all mustered.claimed.roomy]
    exact Ranked.prioritised (List.pairwise_append.mp mustered.ranked₂).1
  have targeted : s₁.Targeted s₂ plan.swapIn := by
    apply mustered.advanced.induct (motive := fun t q => s₁.Targeted t q.swapIn) (.start s₁)
    intro t t' q q' id entered targeted
    exact entered.targeted mustered.orderly₁.sound targeted
  obtain ⟨unmoved, enlarged, supplied, _⟩ := mustered.built
  have running : t.running = s₂.running := unmoved.queues .running
  have sound := mustered.orderly₂.sound
  have device : ∀ {id}, id ∈ s₂.running → s₂.cache.deviceTable id = (s₂.cache.sequence id).table :=
    fun runs => Cache.deviceTable_of_device (mustered.orderly₂.device_of_running runs)
  constructor
  case targets =>
    intro target member
    rw [mustered.swapIn] at member
    obtain ⟨id, runs, swapped, held, plain⟩ := targeted.targets target member
    refine ⟨id, sequences ▸ runs, swapped, ?_,
      supplied.plain (sound.balanced.has_of_mem held).1 plain⟩
    rw [device runs] at held
    rw [Cache.deviceTable_of_device (orderly.device_of_running (running ▸ runs))]
    rcases enlarged id with same | ⟨_, more, self⟩
    · rw [same]
      exact held
    · rw [self]
      exact List.mem_append_left more held
  case publishes =>
    intro id rest suffix swapped other member h target i publishes
    rw [sequences] at suffix
    have shelved := mustered.orderly₁.preempted_of_swapped swapped
    have runs := suffix.subset member
    have outside := mustered.behind suffix shelved member
    have size : t.cache.blockSize = s₂.cache.blockSize := by
      rw [orderly.configured.blockSize, unmoved.config, mustered.orderly₂.configured.blockSize]
    have computed : (t.cache.sequence other).computed = (s₂.cache.sequence other).computed := by
      rcases enlarged other with same | ⟨_, more, self⟩
      · rw [same]
      · rw [self]
    -- what it counts as computed it counted before the batch was built, when the block had its place
    have done := publishes.computed
    rw [size, computed] at done
    obtain ⟨knows, _⟩ := mustered.orderly₂.lined.running other runs
    have progressed := mustered.orderly₂.staged.progressed other knows
    have place := enlarged.place mustered.orderly₂ runs publishes.place
      (by exact_mod_cast done.trans progressed.computed)
    rw [mustered.swapIn]
    refine (targeted.computed other runs outside i target place done).resolve_left fun labelled => ?_
    have held := Cache.mem_deviceTable (mustered.orderly₂.device_of_running runs) place
    exact labelled ((supplied.kept sound held).symm.trans publishes.plain)

end PagedServing.Scheduler
