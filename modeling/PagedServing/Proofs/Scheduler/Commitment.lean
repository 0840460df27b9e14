import PagedServing.Proofs.Scheduler.Schedule
import PagedServing.Scheduler.Commit

/-! # Committing a batch

Every sequence of an executed batch is committed once. Its tokens count as computed, and it
goes on with one token more or ends.
-/

namespace PagedServing

/-- The token of a sample is a number that a vocabulary can have. -/
def Sample.Valid (sample : Sample) : Prop :=
  0 ≤ sample.token ∧ sample.token < 2 ^ 31

/-- The token of a sample can be added to a sequence, and hashed if blocks are shared. -/
structure Cache.Accepts (c : Cache) (sample : Sample) : Prop where
  natural : 0 ≤ sample.token
  hashes : c.Hashes [sample.token]

theorem Cache.Accepts.congr {c c' : Cache} {sample : Sample} (accepts : c.Accepts sample)
    (sharing : c'.sharing = c.sharing) : c'.Accepts sample :=
  ⟨accepts.natural, accepts.hashes.congr sharing⟩

theorem Cache.Accepts.of_small {c : Cache} {sample : Sample} (natural : 0 ≤ sample.token)
    (small : c.sharing = true → sample.token < 2 ^ 31) : c.Accepts sample := by
  have word : Nat.pow 2 31 = 2147483648 := rfl
  refine ⟨natural, fun sharing t same => ?_⟩
  have small := small sharing
  rw [List.mem_singleton.mp same]
  simp only [tokenFits, word, Bool.and_eq_true, decide_eq_true_eq]
  omega

theorem Sample.Valid.accepted {sample : Sample} (valid : sample.Valid) (c : Cache) :
    c.Accepts sample :=
  .of_small valid.1 fun _ => valid.2

theorem Batch.sequences_of_zip {b : Batch} {samples : List Sample}
    {entries : List (SeqId × Sample)} (count : samples.length = b.size)
    (zipped : b.sequences.zip samples = entries) : b.sequences = entries.map (·.1) := by
  rw [← zipped]
  exact (List.map_fst_zip (Nat.le_of_eq count.symm)).symm

namespace Scheduler

variable {s s' : Scheduler} {c c' : Cache} {id : SeqId} {grown : List SeqId} {sample : Sample}
  {slack : Prop}

/-- What committing one sequence does: all that it had is computed, and what follows moves
    no block. -/
structure Committed (c c' : Cache) (id : SeqId) : Prop where
  handled : c.Handled c' id
  computed : ∃ c₁, c.Noted c₁ id { c.sequence id with computed := (c.sequence id).length } ∧
    c₁.Changes c'
  confined : c.Confined c' [id]

/-- What committing sequences one after the other does. -/
inductive CommittedEach : List SeqId → Cache → Cache → Prop where
  | nil (c : Cache) : CommittedEach [] c c
  | cons {id : SeqId} {ids : List SeqId} {c c₁ c₂ : Cache} (first : Committed c c₁ id)
      (rest : CommittedEach ids c₁ c₂) : CommittedEach (id :: ids) c c₂

theorem CommittedEach.confined {ids : List SeqId} (each : CommittedEach ids c c') (sound : c.Sound) :
    c.Confined c' ids := by
  induction each with
  | nil c => exact .refl c
  | cons first _ ih =>
      exact (first.confined.mono (by simp)).trans ((ih first.handled.sound).mono (by simp)) sound

theorem CommittedEach.snoc {ids : List SeqId} {c₁ : Cache} (each : CommittedEach ids c c₁)
    (last : Committed c₁ c' id) : CommittedEach (ids ++ [id]) c c' := by
  induction each with
  | nil c => exact .cons last (.nil c')
  | cons first _ ih => exact .cons first (ih last)

theorem mem_erase_others (distinct : grown.Nodup) (other : SeqId) (different : other ≠ id) :
    other ∈ grown.erase id ↔ other ∈ grown := by
  simp [distinct.mem_erase_iff, different]

theorem stop_returns {reason : FinishReason} {error : Option String} {ahead : Nat}
    (orderly : s.Orderly [] grown slack) (distinct : grown.Nodup) (member : id ∈ s.running)
    (handled : s.cache.Handled c id) (progressed : Cache.Progressed (c.sequence id))
    (device : c.isSwapped id = false) (placed : c.Placed id ahead slack) :
    (stopRunning id >>= fun _ => finish id reason error).Returns { s with cache := c }
      fun _ s' => s'.Orderly [] (grown.erase id) slack ∧
        { s with cache := c, running := s.running.erase id }.Ended s' id reason := by
  have registered := orderly.mem_values .running member
  rw [Action.returns_bind]
  refine (stopRunning_returns (s := { s with cache := c }) member).weaken fun _ s₁ same => ?_
  subst same
  have aside := (orderly.left registered (orderly.lined.leaves .running member rfl)).regrown
    (mem_erase_others distinct)
  have worked : { s with cache := c, running := s.running.erase id }.Orderly [id]
      (grown.erase id) slack :=
    aside.worked handled ⟨rfl, rfl, fun _ => rfl⟩ progressed fun _ => device
  exact finish_returns worked placed

theorem Ended.turned {reason : FinishReason}
    (ended : { s with cache := c, running := s.running.erase id }.Ended s' id reason)
    (orderly : s.Orderly [] grown slack) (member : id ∈ s.running) (handled : s.cache.Handled c id)
    (accepted : reason ≠ .rejected) : s.Turned s' [id] ∧ Over s' id (· ≠ .rejected) := by
  have registered := orderly.mem_values .running member
  have left : s.Left { s with running := s.running.erase id } id :=
    orderly.lined.leaves .running member rfl
  obtain ⟨reduced, others, past⟩ := ended.fate orderly registered handled rfl rfl left.queues
  have past : Over s' id (· ≠ .rejected) := past.mono fun _ same => same ▸ accepted
  refine ⟨⟨reduced, fun other outside => others other (by simpa using outside),
    fun other among => ?_⟩, past⟩
  rw [List.mem_singleton.mp among]
  exact Or.inl past

/-- What a sequence that got its token is like. -/
structure Taken (c c' : Cache) (id : SeqId) : Prop where
  handled : c.Handled c' id
  completion : ∃ token, (c'.sequence id).completion = (c.sequence id).completion ++ [token]
  computed : (c'.sequence id).computed = (c.sequence id).computed
  changes : c.Changes c'
  confined : c.Confined c' [id]
  placed : c'.Placed id 0
  status : (c'.sequence id).status = .running
  progressed : Cache.Progressed (c'.sequence id)

theorem taken_of_appended {token : Int} (placed : c.Placed id 1 slack)
    (status : (c.sequence id).status = .running) (progressed : Cache.Progressed (c.sequence id))
    (sound : c'.Sound) (appended : c.Appended c' id token) : Taken c c' id := by
  obtain ⟨device, table⟩ := placed.running status
  have self := appended.replaced.self
  have length := appended.length_self
  have device' : c'.isSwapped id = false := (Cache.isSwapped_congr appended.swapped id).trans device
  have status' : (c'.sequence id).status = .running := by
    rw [self]
    exact status
  have computed : (c'.sequence id).computed = (c.sequence id).computed := by rw [self]
  have natural := progressed.natural
  have inside := progressed.computed
  refine ⟨?_, ⟨token, ?_⟩, computed, .single (.appended appended inside), .of_appended appended,
    ⟨fun _ => ⟨device', ?_⟩, ?_, ?_⟩, status', by omega, by omega, ?_⟩
  · exact .of_replaced sound appended.replaced
      (fun other _ => Cache.isSwapped_congr appended.swapped other) rfl (by rw [appended.device])
  · rw [self]
  · refine Or.inl ?_
    rw [length, self]
    exact table.next
  · exact fun swapped => by simp [device'] at swapped
  · exact fun other => absurd status' other
  · exact fun waits => by simp [status'] at waits

/-- Publishing changes nothing about a sequence. -/
theorem Taken.published {c'' : Cache} (taken : Taken c c' id) (before : c.Sound)
    (published : c'.Published c'' id) (sound : c''.Sound) : Taken c c'' id := by
  have swapped := Cache.isSwapped_congr published.swapped
  have same := published.sequence id
  have handled : c'.Handled c'' id := .of_replaced sound (published.replaced taken.handled.knows')
    (fun other _ => swapped other) rfl published.size
  have table : c''.deviceTable id = c'.deviceTable id := by
    simp only [Cache.deviceTable, swapped, same]
  have confined : c'.Confined c'' [id] := .of_gained published.gained handled (Or.inl table)
  constructor
  case handled => exact taken.handled.trans handled
  case completion => exact same ▸ taken.completion
  case computed => exact same ▸ taken.computed
  case changes =>
    exact taken.changes.tail (.published taken.handled.knows' published taken.progressed.computed)
  case confined => exact taken.confined.trans confined before
  case placed => exact taken.placed.congr same (swapped id)
  case status => exact same ▸ taken.status
  case progressed => exact same ▸ taken.progressed

theorem takeToken_returns {prefill : Bool} (sound : s.cache.Sound) (knows : s.cache.Knows id)
    (placed : s.cache.Placed id 1 slack) (status : (s.cache.sequence id).status = .running)
    (progressed : Cache.Progressed (s.cache.sequence id)) (accepted : s.cache.Accepts sample)
    {post : Unit → Scheduler → Prop}
    (next : ∀ c, Taken s.cache c id → post () { s with cache := c }) :
    (onCache (Cache.append id sample.token) >>= fun _ =>
      if prefill then onCache (Cache.publish id) else pure ()).Returns s post := by
  have capacity := (placed.running status).2.next_le_capacity
  simp only [Action.returns_bind, returns_onCache]
  refine (Cache.append_returns sound knows accepted.natural accepted.hashes
    fun _ => capacity).weaken ?_
  rintro _ c₁ ⟨sound₁, appended⟩
  have taken := taken_of_appended placed status progressed sound₁ appended
  split
  · rw [returns_onCache]
    refine (Cache.publish_returns sound₁ taken.handled.knows' taken.progressed.computed).weaken ?_
    rintro _ c₂ ⟨published, sound₂⟩
    exact next c₂ (taken.published sound published sound₂)
  · exact Action.returns_pure.mpr (next c₁ taken)

theorem stopReason?_none {q : Sequence} {token : Int} (goesOn : s.stopReason? q token = none) :
    q.completion.length < q.sampling.maxTokens ∧ q.length < s.config.maxLength := by
  unfold stopReason? at goesOn
  split at goesOn
  · cases goesOn
  · split at goesOn
    · cases goesOn
    · split at goesOn
      · cases goesOn
      · split at goesOn
        · cases goesOn
        · rename_i below
          split at goesOn
          · cases goesOn
          · rename_i short
            exact ⟨Nat.lt_of_not_le below, Nat.lt_of_not_le short⟩

theorem stopReason?_ne_rejected {q : Sequence} {token : Int} {reason : FinishReason}
    (stops : s.stopReason? q token = some reason) : reason ≠ .rejected := by
  rintro rfl
  unfold stopReason? at stops
  split at stops
  · cases stops
  · split at stops
    · cases stops
    · split at stops
      · cases stops
      · split at stops
        · cases stops
        · split at stops <;> cases stops

theorem goOn_returns {output : Output} (orderly : s.Orderly [] grown slack) (distinct : grown.Nodup)
    (member : id ∈ s.running) (handled : s.cache.Handled c id)
    (progressed : Cache.Progressed (c.sequence id)) (placed : c.Placed id 0 slack)
    (status : (c.sequence id).status = .running)
    (short : (c.sequence id).length < s.config.maxLength) :
    (edit id (·.delivered) >>= fun _ => pure output : Action Scheduler Output).Returns
      { s with cache := c } fun _ s' => s'.Orderly [] (grown.erase id) slack ∧
        ∃ c', s' = { s with cache := c' } ∧ c.Noted c' id (c.sequence id).delivered := by
  rw [Action.returns_bind]
  refine edit_returns handled.knows' ⟨rfl, rfl⟩ fun c' noted => ?_
  rw [Action.returns_pure]
  have self : c'.sequence id = (c.sequence id).delivered := noted.replaced.self
  have handled' := Cache.Handled.of_noted handled.sound noted
  have swapped : c'.isSwapped id = c.isSwapped id := Cache.isSwapped_congr noted.swapped id
  refine ⟨orderly.kept (orderly.mem_values .running member) (handled.trans handled') ⟨rfl, rfl, fun _ => rfl⟩
    (mem_erase_others distinct) ?_ (fun _ => swapped.trans (placed.running status).1) ?_ ?_ ?_,
    c', rfl, noted⟩
  · rw [(orderly.lined.running id member).2]
    exact self ▸ status
  · exact self ▸ ⟨progressed.natural, progressed.computed, progressed.untouched⟩
  · rw [if_neg distinct.not_mem_erase]
    exact placed.noted noted rfl
  · exact self ▸ short

theorem Taken.turned {c₁ c₂ : Cache} (taken : Taken c c₁ id) (sound : s.cache.Sound)
    (first : s.cache.Noted c id { s.cache.sequence id with
      computed := (s.cache.sequence id).length })
    (last : c₁.Noted c₂ id (c₁.sequence id).delivered)
    (below : (c₁.sequence id).completion.length < (c₁.sequence id).sampling.maxTokens) :
    s.Turned { s with cache := c₂ } [id] := by
  have handled : s.cache.Handled c₂ id :=
    ((Cache.Handled.of_noted sound first).trans taken.handled).trans
      (.of_noted taken.handled.sound last)
  refine ⟨⟨rfl, fun _ => .refl _, fun _ member => member, handled.origins⟩, fun other outside => ?_,
    fun other among => Or.inr ?_⟩
  · exact .of_same (handled.others other (by simpa using outside)) fun member => member
  · obtain rfl := List.mem_singleton.mp among
    obtain ⟨token, completion⟩ := taken.completion
    have self : c₂.sequence other = (c₁.sequence other).delivered := last.replaced.self
    rw [Sequence.completion_of_account (first.account other)] at completion
    have prompt : (c₁.sequence other).prompt = (s.cache.sequence other).prompt :=
      congrArg Origin.prompt (taken.handled.origin.trans
        (Sequence.origin_of_account (first.account other)))
    have computed : (c₁.sequence other).computed = (s.cache.sequence other).length := by
      rw [taken.computed, first.replaced.self]
    rw [self]
    refine ⟨taken.status, ⟨token, completion⟩, ?_, below⟩
    show ((c₁.sequence other).length : Int) - (c₁.sequence other).computed = 1
    rw [computed, Sequence.length, Sequence.length, prompt, completion, List.length_append,
      List.length_singleton]
    omega

theorem noted_running (orderly : s.Orderly [] grown slack) (member : id ∈ s.running)
    (ahead : id ∈ grown) (noted : s.cache.Noted c id { s.cache.sequence id with
      computed := (s.cache.sequence id).length }) :
    (c.sequence id).status = .running ∧ Cache.Progressed (c.sequence id) ∧ c.Placed id 1 slack := by
  obtain ⟨knows, status⟩ := orderly.lined.running id member
  have placed := orderly.staged.placed id knows List.not_mem_nil
  rw [if_pos ahead] at placed
  have self := noted.replaced.self
  refine ⟨?_, ?_, placed.noted noted rfl⟩
  · rw [self]
    exact status
  · rw [self]
    exact ⟨Int.natCast_nonneg _, Int.le_refl _, by simp [status]⟩

theorem commitOne_failed (orderly : s.Orderly [] grown slack) (distinct : grown.Nodup)
    (member : id ∈ s.running) (ahead : id ∈ grown) (failed : sample.success = false) :
    (commitOne id sample).Returns s fun _ s' => s'.Orderly [] (grown.erase id) slack ∧
      ∃ c, s.cache.Noted c id { s.cache.sequence id with
          computed := (s.cache.sequence id).length } ∧
        { s with cache := c, running := s.running.erase id }.Ended s' id .error := by
  obtain ⟨knows, status⟩ := orderly.lined.running id member
  simp only [commitOne, Action.returns_bind, returns_look, Action.returns_require]
  refine ⟨decide_eq_true status, edit_returns knows ⟨rfl, rfl⟩ fun c noted => ?_⟩
  obtain ⟨status₁, progressed₁, placed₁⟩ := noted_running orderly member ahead noted
  rw [failed, Bool.not_false, if_pos rfl]
  refine (stop_returns orderly distinct member (.of_noted orderly.sound noted) progressed₁
    (placed₁.running status₁).1 placed₁).weaken ?_
  rintro _ s' ⟨orderly', ended⟩
  exact ⟨orderly', c, noted, ended⟩

/-- Whatever a device answers for a running sequence of its batch can be committed. -/
theorem commitOne_returns (orderly : s.Orderly [] grown slack) (distinct : grown.Nodup)
    (member : id ∈ s.running) (ahead : id ∈ grown)
    (accepted : sample.success = true → s.cache.Accepts sample) :
    (commitOne id sample).Returns s fun _ s' => s'.Orderly [] (grown.erase id) slack ∧
      s.Turned s' [id] ∧ Committed s.cache s'.cache id := by
  cases answered : sample.success with
  | false =>
    refine (commitOne_failed orderly distinct member ahead answered).weaken ?_
    rintro _ s' ⟨orderly', c, noted, ended⟩
    have handled := Cache.Handled.of_noted orderly.sound noted
    have confined := (Cache.Confined.of_noted noted).trans ended.confined orderly.sound
    exact ⟨orderly', (ended.turned orderly member handled (by decide)).1,
      handled.trans ended.handled, ⟨c, noted, ended.changes⟩, confined⟩
  | true =>
    obtain ⟨knows, status⟩ := orderly.lined.running id member
    simp only [commitOne, Action.returns_bind, returns_look, Action.returns_require, status,
      decide_true, true_and, answered, Bool.not_true, Bool.false_eq_true, if_false]
    refine edit_returns knows ⟨rfl, rfl⟩ fun c noted => ?_
    obtain ⟨status₁, progressed₁, placed₁⟩ := noted_running orderly member ahead noted
    have handled := Cache.Handled.of_noted orderly.sound noted
    have untouched : s.cache.Confined c [id] := .of_noted noted
    simp only [Action.returns_when]
    rw [← Action.returns_bind]
    refine takeToken_returns (s := { s with cache := c }) handled.sound handled.knows' placed₁ status₁
      progressed₁ ((accepted answered).congr noted.replaced.sharing) fun c₂ taken => ?_
    simp only [Action.returns_bind, Action.returns_get, returns_look]
    have taken : Taken c c₂ id := taken
    have handled₂ := handled.trans taken.handled
    -- the token is taken; the sequence either stops at it or goes on
    split
    · rename_i reason stops
      refine (stop_returns orderly distinct member handled₂ taken.progressed
        (taken.placed.running taken.status).1 taken.placed.slacken).weaken ?_
      rintro _ s₃ ⟨orderly₃, ended⟩
      have confined := (untouched.trans taken.confined orderly.sound).trans ended.confined
        orderly.sound
      exact ⟨orderly₃, (ended.turned orderly member handled₂ (stopReason?_ne_rejected stops)).1,
        handled₂.trans ended.handled, ⟨c, noted, taken.changes.trans ended.changes⟩, confined⟩
    · rename_i goesOn
      obtain ⟨below, short⟩ := stopReason?_none goesOn
      refine (goOn_returns orderly distinct member handled₂ taken.progressed
        taken.placed.slacken taken.status short).weaken ?_
      rintro _ s₃ ⟨orderly₃, c₃, rfl, last⟩
      have confined := (untouched.trans taken.confined orderly.sound).trans (.of_noted last)
        orderly.sound
      exact ⟨orderly₃, taken.turned orderly.sound noted last below,
        handled₂.trans (.of_noted handled₂.sound last),
        ⟨c, noted, taken.changes.tail (.noted last (Int.le_refl _))⟩, confined⟩

/-- Samples of a batch can be committed one after the other, before those of the sequences
    `later`. -/
theorem commitEach_returns (later : List SeqId) (samples : List (SeqId × Sample)) :
    ∀ {s : Scheduler}, s.Orderly [] (samples.map (·.1) ++ later) slack →
      (samples.map (·.1) ++ later).Nodup →
      (∀ e ∈ samples, e.1 ∈ s.running ∧ (e.2.success = true → s.cache.Accepts e.2)) →
      (commitEach samples).Returns s fun _ s' => s'.Orderly [] later slack ∧
        s.Turned s' (samples.map (·.1)) ∧ CommittedEach (samples.map (·.1)) s.cache s'.cache := by
  induction samples with
  | nil =>
      intro s orderly _ _
      simpa [commitEach] using ⟨orderly, Turned.nil s, CommittedEach.nil s.cache⟩
  | cons e rest ih =>
      obtain ⟨id, sample⟩ := e
      intro s orderly distinct each
      obtain ⟨running, accepted⟩ := each _ List.mem_cons_self
      simp only [List.map_cons, List.cons_append] at orderly distinct
      simp only [commitEach, Action.returns_bind, Action.returns_pure]
      refine (commitOne_returns orderly distinct running List.mem_cons_self accepted).weaken ?_
      rintro _ s₁ ⟨orderly₁, turned₁, committed⟩
      rw [List.erase_cons_head] at orderly₁
      obtain ⟨absent, distinct⟩ := List.nodup_cons.mp distinct
      have others : ∀ e ∈ rest,
          e.1 ∈ s₁.running ∧ (e.2.success = true → s₁.cache.Accepts e.2) := by
        intro e member
        obtain ⟨before, accepted⟩ := each e (List.mem_cons_of_mem _ member)
        refine ⟨(turned₁.stays orderly orderly₁ before ?_).1,
          fun success => (accepted success).congr committed.handled.sharing⟩
        intro among
        have same : e.1 = id := List.mem_singleton.mp among
        exact absent (List.mem_append_left later (same ▸ List.mem_map_of_mem member))
      refine (ih orderly₁ distinct others).weaken ?_
      rintro _ s₂ ⟨orderly₂, turned₂, rest⟩
      have absent := fun among => absent (List.mem_append_left later among)
      exact ⟨orderly₂, turned₁.cons turned₂ absent, .cons committed rest⟩

theorem Orderly.accepts {slack' : Prop} (orderly : s.Orderly [] grown slack) {grown' : List SeqId}
    (orderly' : s'.Orderly [] grown' slack') (config : s'.config = s.config)
    (accepts : s.cache.Accepts sample) : s'.cache.Accepts sample :=
  accepts.congr (by rw [orderly'.configured.sharing, config, orderly.configured.sharing])

theorem commitEach_before {before after : List (SeqId × Sample)}
    (orderly : s.Orderly [] ((before ++ (id, sample) :: after).map (·.1)) slack)
    (distinct : ((before ++ (id, sample) :: after).map (·.1)).Nodup)
    (running : ∀ e ∈ before ++ (id, sample) :: after, e.1 ∈ s.running)
    (accepted : ∀ e ∈ before, e.2.success = true → s.cache.Accepts e.2) :
    (commitEach before).Returns s fun _ s₁ => s₁.Orderly [] (id :: after.map (·.1)) slack ∧
      s.Turned s₁ (before.map (·.1)) ∧ CommittedEach (before.map (·.1)) s.cache s₁.cache ∧
      ∀ e ∈ (id, sample) :: after, e.1 ∉ before.map (·.1) ∧ e.1 ∈ s₁.running ∧
        s₁.cache.sequence e.1 = s.cache.sequence e.1 := by
  rw [List.map_append, List.map_cons] at orderly distinct
  refine (commitEach_returns (id :: after.map (·.1)) before orderly distinct fun e member =>
    ⟨running e (List.mem_append_left _ member), accepted e member⟩).weaken ?_
  rintro _ s₁ ⟨orderly₁, turned, committed⟩
  refine ⟨orderly₁, turned, committed, fun e among => ?_⟩
  have behind : e.1 ∉ before.map (·.1) := fun twice =>
    (List.nodup_append.mp distinct).2.2 _ twice _ (List.mem_map_of_mem (f := (·.1)) among) rfl
  exact ⟨behind, turned.stays orderly orderly₁ (running e (List.mem_append_right _ among)) behind⟩

end Scheduler

end PagedServing
