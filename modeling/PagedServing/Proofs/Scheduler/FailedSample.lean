import PagedServing.Proofs.Scheduler.Progress

/-! # Steps that fail for one sequence

A sequence whose step failed ends when its batch is committed. All its tokens count as
computed by then, and so it publishes the blocks that the failed step was to fill. The others
of the batch publish none of its blocks.
-/

namespace PagedServing

namespace Cache

variable {c c' c'' : Cache} {id : SeqId} {i : Nat} {b h : Int}

/-- The block `b`, at `i` in the table, is for a position that a step computes. -/
def Computes (c : Cache) (id : SeqId) (i : Nat) (b : Int) : Prop :=
  (c.sequence id).table[i]? = some b ∧ ∃ position : Nat, position / c.blockSize = i ∧
    (c.sequence id).computed ≤ position ∧ position < (c.sequence id).length

/-- Some hash leads to the block that did not lead there before. -/
def Gains (c c' : Cache) (b : Int) : Prop :=
  ∃ h, c'.device.registry.get? h = some b ∧ c.device.registry.get? h ≠ some b

theorem Computes.ahead (computes : c.Computes id i b) :
    (c.sequence id).computed < ((i + 1) * c.blockSize : Nat) := by
  obtain ⟨_, position, rfl, ahead, _⟩ := computes
  have := Nat.lt_mul_div_succ position c.blockSize_pos
  rw [Nat.mul_comm] at this
  exact Int.lt_of_le_of_lt ahead (Int.ofNat_lt.mpr this)

theorem computes_of_full (place : (c.sequence id).table[i]? = some b)
    (ahead : (c.sequence id).computed < ((i + 1) * c.blockSize : Nat))
    (inside : (i + 1) * c.blockSize ≤ (c.sequence id).length) : c.Computes id i b := by
  have positive := c.blockSize_pos
  have last : (i + 1) * c.blockSize = i * c.blockSize + c.blockSize := Nat.succ_mul i c.blockSize
  refine ⟨place, i * c.blockSize + (c.blockSize - 1), ?_, by omega, by omega⟩
  rw [Nat.mul_comm, Nat.mul_add_div positive, Nat.div_eq_of_lt (by omega), Nat.add_zero]

theorem publishes_of_full
    (noted : c.Noted c' id { c.sequence id with computed := (c.sequence id).length })
    (device : c.isSwapped id = false) (sharing : c.sharing = true)
    (place : (c.sequence id).table[i]? = some b)
    (inside : (i + 1) * c.blockSize ≤ (c.sequence id).length)
    (plain : (c.device.entry b).hash = noHash) :
    c'.Publishes id (chainHash c.blockSize (c.sequence id).tokens (i + 1)) b i := by
  have self := noted.replaced.self
  have size := noted.replaced.blockSize
  constructor
  case device => exact (isSwapped_congr noted.swapped id).trans device
  case sharing => exact noted.replaced.sharing.trans sharing
  case computed =>
    rw [self, size]
    exact Int.ofNat_le.mpr inside
  case place => exact noted.tables id ▸ place
  case hash => rw [size, noted.tokens]
  case plain => exact noted.device ▸ plain

theorem Publishes.full (publishes : c'.Publishes id h b i)
    (noted : c.Noted c' id { c.sequence id with computed := (c.sequence id).length }) :
    (c.deviceTable id)[i]? = some b ∧ (i + 1) * c.blockSize ≤ (c.sequence id).length ∧
      (c.device.entry b).hash = noHash ∧ h ≠ noHash := by
  have self := noted.replaced.self
  have computed := publishes.computed
  rw [self, noted.replaced.blockSize] at computed
  refine ⟨?_, Int.ofNat_le.mp computed, noted.device ▸ publishes.plain, ?_⟩
  · rw [← noted.deviceTable]
    exact deviceTable_place publishes.device publishes.place
  · rw [publishes.hash]
    exact chainHash_succ_ne _ _ _

theorem unpublished_iff (sound : c.Sound)
    (noted : c.Noted c' id { c.sequence id with computed := (c.sequence id).length })
    (gained : c'.Gained c'' (c'.Publishes id)) (device : c.isSwapped id = false)
    (sharing : c.sharing = true) :
    (∀ i b, c.Computes id i b → ¬ c.Gains c'' b) ↔ ∀ i b, c.Computes id i b →
      (i + 1) * c.blockSize ≤ (c.sequence id).length → (c.device.entry b).hash ≠ noHash := by
  constructor
  · intro unpublished i b computes inside plain
    have publishes := publishes_of_full noted device sharing computes.1 inside plain
    -- a later block of the same chain hash may have taken the place of this one
    obtain ⟨b', i', later, publishes', found⟩ := gained.found _ b i publishes
    obtain ⟨place', inside', plain', real⟩ := publishes'.full noted
    rw [deviceTable_of_device device] at place'
    have beyond := Nat.mul_le_mul_right c.blockSize (Nat.succ_le_succ later)
    have ahead := Int.lt_of_lt_of_le computes.ahead (Int.ofNat_le.mpr beyond)
    refine unpublished i' b' (computes_of_full place' ahead inside') ⟨_, found, fun before => ?_⟩
    exact real ((sound.labelled.coherent _ b' before).2.1.symm.trans plain')
  · rintro labelled i b computes ⟨h, found, missing⟩
    rcases gained.origin found with before | ⟨j, publishes⟩
    · exact missing (noted.device ▸ before)
    · obtain ⟨place, inside, plain, _⟩ := publishes.full noted
      obtain ⟨_, rfl⟩ := sound.labelled.plain_unique sound.balanced.device plain place
        (deviceTable_place device computes.1)
      exact labelled i b computes inside plain

theorem gains_of_confined {c₁ c₂ : Cache} {ids ids' : List SeqId} (sound : c.Sound)
    (sound₁ : c₁.Sound) (first : c.Confined c₁ ids) (own : c₁.Confined c₂ [id])
    (rest : c₂.Confined c' ids') (outside : id ∉ ids) (outside' : id ∉ ids')
    (member : b ∈ c.deviceTable id) (gains : c.Gains c' b) : c₁.Gains c₂ b := by
  obtain ⟨h, found, missing⟩ := gains
  have missing₁ : c₁.device.registry.get? h ≠ some b := fun before =>
    missing ((first.apart sound outside member).2 h before)
  rcases rest.registry h b found with before | blank
  · exact ⟨h, before, missing₁⟩
  · have blank := first.blank sound (own.blank sound₁ blank)
    exact absurd (blank.holder sound member) outside'

end Cache

namespace Scheduler

variable {ω : Type} {config : Config} {device : Device ω} {d : Driven ω} {p : Prepared}
  {s s' : Scheduler} {id : SeqId} {sample : Sample} {before after : List (SeqId × Sample)}

@[simp]
theorem returns_commitEach_append {samples samples' : List (SeqId × Sample)}
    {post : List Output → Scheduler → Prop} :
    (commitEach (samples ++ samples')).Returns s post ↔ (commitEach samples).Returns s fun os t =>
      (commitEach samples').Returns t fun os' u => post (os ++ os') u := by
  induction samples generalizing s post with
  | nil => simp [commitEach]
  | cons e samples ih =>
      simp only [commitEach, List.cons_append, Action.returns_bind, Action.returns_pure, ih]

/-- What committing a batch does around a sequence whose step has failed. -/
structure Interrupted (s s₁ s₂ s' : Scheduler) (id : SeqId) (earlier later : List SeqId) : Prop where
  once : id ∉ earlier
  nomore : id ∉ later
  orderly : s₁.Orderly [] (id :: later)
  config : s₁.config = s.config
  member : id ∈ s₁.running
  same : s₁.cache.sequence id = s.cache.sequence id
  before : s.cache.Confined s₁.cache earlier
  noted : ∃ c, s₁.cache.Noted c id { s₁.cache.sequence id with
      computed := (s₁.cache.sequence id).length } ∧
    { s₁ with cache := c, running := s₁.running.erase id }.Ended s₂ id .error
  after : s₂.cache.Confined s'.cache later

theorem commitEach_interrupted (orderly : s.Orderly [] ((before ++ (id, sample) :: after).map (·.1)))
    (nodup : ((before ++ (id, sample) :: after).map (·.1)).Nodup)
    (each : ∀ e ∈ before ++ (id, sample) :: after,
      e.1 ∈ s.running ∧ (e.2.success = true → s.cache.Accepts e.2))
    (failed : sample.success = false) :
    (commitEach before).Returns s fun _ s₁ => (commitOne id sample).Returns s₁ fun _ s₂ =>
      (commitEach after).Returns s₂ fun _ s' =>
        Interrupted s s₁ s₂ s' id (before.map (·.1)) (after.map (·.1)) := by
  refine (commitEach_before orderly nodup (fun e member => (each e member).1) fun e member =>
    (each e (List.mem_append_left _ member)).2).weaken ?_
  rintro _ s₁ ⟨orderly₁, turned₁, committed₁, stays₁⟩
  obtain ⟨once, member, same⟩ := stays₁ (id, sample) List.mem_cons_self
  rw [List.map_append, List.map_cons] at nodup
  have distinct := (List.nodup_append.mp nodup).2.1
  obtain ⟨absent, distinct'⟩ := List.nodup_cons.mp distinct
  refine (commitOne_failed orderly₁ distinct member List.mem_cons_self failed).weaken ?_
  rintro _ s₂ ⟨orderly₂, c, noted, ended⟩
  rw [List.erase_cons_head] at orderly₂
  obtain ⟨turned₂, _⟩ := ended.turned orderly₁ member (.of_noted orderly₁.sound noted) (by decide)
  have config₂ := turned₂.reduced.config.trans turned₁.reduced.config
  have each₂ : ∀ e ∈ after, e.1 ∈ s₂.running ∧ (e.2.success = true → s₂.cache.Accepts e.2) := by
    intro e among
    have runs := (stays₁ e (List.mem_cons_of_mem _ among)).2.1
    have accepted := (each e (List.mem_append_right _ (List.mem_cons_of_mem _ among))).2
    refine ⟨(turned₂.stays orderly₁ orderly₂ runs ?_).1, fun success =>
      orderly.accepts orderly₂ config₂ (accepted success)⟩
    -- members are distinct, so the one that has ended does not come again
    intro twice
    exact absent (List.mem_singleton.mp twice ▸ List.mem_map_of_mem (f := (·.1)) among)
  rw [← List.append_nil (List.map _ after)] at orderly₂ distinct'
  refine (commitEach_returns [] after orderly₂ distinct' each₂).weaken ?_
  rintro _ s' ⟨_, _, committed'⟩
  constructor
  case once => exact once
  case nomore => exact absent
  case orderly => exact orderly₁
  case config => exact turned₁.reduced.config
  case member => exact member
  case same => exact same
  case before => exact committed₁.confined orderly.sound
  case noted => exact ⟨c, noted, ended⟩
  case after => exact committed'.confined orderly₂.sound

theorem ungained_of_published {ids : List SeqId} {i : Nat} {b : Int}
    (published : s.cache.PublishedEach s'.cache ids) (sound : s.cache.Sound)
    (device : s.cache.isSwapped id = false) (computes : s.cache.Computes id i b) :
    ¬ s.cache.Gains s'.cache b := by
  rintro ⟨h, found, missing⟩
  obtain ⟨other, _, j, publishes⟩ := (published.origin found).resolve_left missing
  obtain ⟨rfl, rfl⟩ := publishes.alone sound (Cache.deviceTable_place device computes.1)
  exact Int.not_lt.mpr publishes.computed computes.ahead

theorem Interrupted.unpublished_iff {s₁ s₂ : Scheduler} {earlier later grown : List SeqId}
    (interrupted : Interrupted s s₁ s₂ s' id earlier later) (orderly : s.Orderly [] grown)
    (sharing : s.config.sharing = true) (runs : id ∈ s.running) :
    (∀ i b, s.cache.Computes id i b → s.cache.Gains s'.cache b → s₁.cache.Gains s₂.cache b) ∧
      ((∀ i b, s.cache.Computes id i b → ¬ s₁.cache.Gains s₂.cache b) ↔
        ∀ i b, s.cache.Computes id i b →
          (i + 1) * s.cache.blockSize ≤ (s.cache.sequence id).length →
            (s.cache.device.entry b).hash ≠ noHash) := by
  obtain ⟨once, nomore, orderly₁, config, member, same, before, ⟨c, noted, ended⟩, after⟩ :=
    interrupted
  have held : ∀ {i b}, s.cache.Computes id i b → b ∈ s.cache.deviceTable id := by
    intro i b computes
    exact Cache.mem_deviceTable (orderly.device_of_running runs) computes.1
  constructor
  · intro i b computes gains
    have own := (Cache.Confined.of_noted noted).trans ended.confined orderly₁.sound
    exact Cache.gains_of_confined orderly.sound orderly₁.sound before own after once nomore
      (held computes) gains
  · have size : s₁.cache.blockSize = s.cache.blockSize := by
      rw [orderly₁.configured.blockSize, config, orderly.configured.blockSize]
    have on : s₁.cache.sharing = true := by
      rw [orderly₁.configured.sharing, config, sharing]
    have computes : ∀ i b, s₁.cache.Computes id i b ↔ s.cache.Computes id i b := by
      intro i b
      rw [Cache.Computes, Cache.Computes, same, size]
    have core := Cache.unpublished_iff orderly₁.sound noted ended.gained
      (orderly₁.device_of_running member) on
    simp only [computes, same, size] at core
    rw [core]
    refine forall_congr' fun i => forall_congr' fun b => forall_congr' fun computes => ?_
    rw [(before.apart orderly.sound once (held computes)).1]

theorem returns_commit_around {b : Batch} {samples : List Sample} (count : samples.length = b.size)
    (place : b.sequences.zip samples = before ++ (id, sample) :: after)
    {post : List Output → Scheduler → Prop} :
    (commit b samples).Returns s post ↔ (commitEach before).Returns s fun os s₁ =>
      (commitOne id sample).Returns s₁ fun o s₂ => (commitEach after).Returns s₂ fun os' s' =>
        post (os ++ o :: os') s' := by
  rw [commit, if_neg (not_not.mpr count), place]
  simp only [returns_commitEach_append, commitEach, Action.returns_bind, Action.returns_pure]

theorem Planned.interrupted {c : Cache} {b : Batch} (planned : Planned c s b)
    {samples : List Sample} (numbers : ∀ sample ∈ samples, sample.success = true → sample.Valid)
    (place : b.sequences.zip samples = before ++ (id, sample) :: after)
    (failed : sample.success = false) (count : samples.length = b.size) :
    (commitEach before).Returns s fun _ s₁ => (commitOne id sample).Returns s₁ fun _ s₂ =>
      (commitEach after).Returns s₂ fun _ s' =>
        Interrupted s s₁ s₂ s' id (before.map (·.1)) (after.map (·.1)) := by
  have names := Batch.sequences_of_zip count place
  refine commitEach_interrupted (names ▸ planned.orderly) (names ▸ planned.nodup) ?_ failed
  intro e among
  rw [← place] at among
  exact ⟨planned.running e.1 (List.of_mem_zip among).1,
    fun success => (numbers e.2 (List.of_mem_zip among).2 success).accepted _⟩

/-- A batch of a reached state is committed, and the step has failed for one of its sequences.
    If there is a sample for each, what the commit publishes of the blocks of that step is
    published by the sequence itself, and this is nothing exactly if every full block of the step
    has a label already. Otherwise nothing is published of these blocks. -/
theorem failedSample_unpublished_iff (valid : device.Valid) (sharing : config.sharing = true)
    (reachable : Reachable config device d) (prepared : prepare d.scheduler = .ok p s)
    {samples : List Sample} (numbers : ∀ sample ∈ samples, sample.success = true → sample.Valid)
    (place : p.batch.sequences.zip samples = before ++ (id, sample) :: after)
    (failed : sample.success = false) :
    (commit p.batch samples).Returns s fun _ s' =>
      (samples.length ≠ p.batch.size →
        ∀ i b, s.cache.Computes id i b → ¬ s.cache.Gains s'.cache b) ∧
      (samples.length = p.batch.size →
        (commitEach before).Returns s fun _ s₁ => (commitOne id sample).Returns s₁ fun _ s₂ =>
          (∀ i b, s.cache.Computes id i b → s.cache.Gains s'.cache b →
            s₁.cache.Gains s₂.cache b) ∧
          ((∀ i b, s.cache.Computes id i b → ¬ s₁.cache.Gains s₂.cache b) ↔
            ∀ i b, s.cache.Computes id i b →
              (i + 1) * s.cache.blockSize ≤ (s.cache.sequence id).length →
                (s.cache.device.entry b).hash ≠ noHash)) := by
  obtain ⟨orderly, config'⟩ := reachable.orderly valid
  obtain ⟨planned, same, arranged⟩ := (prepare_returns orderly).of_run prepared
  have answered : (id, sample) ∈ p.batch.sequences.zip samples := by
    rw [place]
    exact List.mem_append_right before List.mem_cons_self
  have runs := planned.running id (List.of_mem_zip answered).1
  by_cases count : samples.length = p.batch.size
  · obtain ⟨_, s₁, run₁, _, s₂, run₂, _, s', run', interrupted⟩ :=
      planned.interrupted numbers place failed count
    have whole : (commit p.batch samples).Returns s fun _ t => t = s' :=
      (returns_commit_around count place).mpr ⟨_, s₁, run₁, _, s₂, run₂, _, s', run', rfl⟩
    refine whole.weaken ?_
    rintro _ _ rfl
    refine ⟨fun other => absurd count other, fun _ => ⟨_, s₁, run₁, _, s₂, run₂, ?_⟩⟩
    refine interrupted.unpublished_iff planned.orderly ?_ runs
    rw [same, config', sharing]
  · rw [commit, if_pos count]
    refine (failBatch_returns planned.orderly planned.nodup planned.running _).weaken ?_
    rintro _ s' ⟨_, _, results⟩
    have all : ∀ other ∈ s.running, other ∈ p.batch.sequences := fun other =>
      (arranged.assembled orderly (reachable.paced valid)).members.mem_iff.mpr
    refine ⟨fun _ i b => ?_, fun equal => absurd equal count⟩
    exact ungained_of_published (results all).2 planned.orderly.sound
      (planned.orderly.device_of_running runs)

/-- The answer of a device that failed for a sequence. -/
def failure : Sample where
  token := 7
  success := false

/-- One request of one token. -/
def lone : Driven Unit :=
  (smallStart .recompute true).request [5]

theorem lone_reachable : Reachable (smallConfig .recompute true) sevens lone :=
  (smallStart_reachable .recompute true).requestSeven [5] (by decide)

theorem failedSample_unpublished_iff_lone :
    ∃ p s, prepare lone.scheduler = .ok p s ∧ (commit p.batch [failure]).Returns s fun _ s' =>
      ([failure].length ≠ p.batch.size →
        ∀ i b, s.cache.Computes 0 i b → ¬ s.cache.Gains s'.cache b) ∧
      ([failure].length = p.batch.size →
        (commitEach []).Returns s fun _ s₁ => (commitOne 0 failure).Returns s₁ fun _ s₂ =>
          (∀ i b, s.cache.Computes 0 i b → s.cache.Gains s'.cache b → s₁.cache.Gains s₂.cache b) ∧
          ((∀ i b, s.cache.Computes 0 i b → ¬ s₁.cache.Gains s₂.cache b) ↔
            ∀ i b, s.cache.Computes 0 i b →
              (i + 1) * s.cache.blockSize ≤ (s.cache.sequence 0).length →
                (s.cache.device.entry b).hash ≠ noHash)) := by
  have batch : prepare.Returns lone.scheduler fun p _ => p.batch.sequences = [0] := by
    decide +kernel
  obtain ⟨p, s, prepared, sequences⟩ := batch
  have place : p.batch.sequences.zip [failure] = [] ++ (0, failure) :: [] := by
    rw [sequences]
    rfl
  have numbers : ∀ sample ∈ [failure], sample.success = true → sample.Valid := by
    rintro sample member success
    rw [List.mem_singleton.mp member] at success
    cases success
  exact ⟨p, s, prepared,
    failedSample_unpublished_iff sevens_valid rfl lone_reachable prepared numbers place rfl⟩

/-- The step fails for the only request, and its block is found from then on. -/
theorem failedSample_published :
    Reachable (smallConfig .recompute true) sevens lone ∧
      ∃ p s, prepare lone.scheduler = .ok p s ∧ p.batch.sequences = [0] ∧
        (s.cache.sequence 0).computed = 0 ∧
        (commit p.batch [failure]).Returns s fun _ s' =>
          s.cache.Computes 0 0 0 ∧ s.cache.Gains s'.cache 0 := by
  have published : prepare.Returns lone.scheduler fun p s => p.batch.sequences = [0] ∧
      (s.cache.sequence 0).computed = 0 ∧ (s.cache.sequence 0).length = 1 ∧
        (s.cache.sequence 0).table[0]? = some 0 ∧
        (commit p.batch [failure]).Returns s fun _ s' =>
          s'.cache.device.registry.get? 14111056568482183481 = some 0 ∧
          s.cache.device.registry.get? 14111056568482183481 ≠ some 0 := by
    decide +kernel
  obtain ⟨p, s, prepared, sequences, computed, length, table, returns⟩ := published
  refine ⟨lone_reachable, p, s, prepared, sequences, computed, returns.weaken fun _ s' gained => ?_⟩
  refine ⟨⟨table, 0, Nat.zero_div _, ?_, ?_⟩, _, gained⟩
  · rw [computed]
    rfl
  · omega

end Scheduler

end PagedServing
