import PagedServing.Proofs.Scheduler.Ending

/-! # Taking requests in and giving them up

Requests come and go between iterations. Whatever is refused leaves the scheduler orderly,
and whatever is given up ends.
-/

namespace PagedServing.Scheduler

variable {s s' : Scheduler} {id : SeqId} {grown : List SeqId} {slack : Prop}

theorem queued_perm (s : Scheduler) (id : SeqId) (queue : List SeqId) :
    (s.queued id queue).Perm (id :: queue) := by
  unfold queued Queue.insert
  exact List.perm_middle.trans (by rw [List.take_append_drop])

theorem takePending_returns {post : List Output → Scheduler → Prop} :
    takePending.Returns s post ↔ post s.pending { s with pending := [] } := by
  simp [takePending]

theorem abort_returns (orderly : s.Orderly [] grown slack) (name : String) :
    (abort name).Returns s fun _ s' => s'.Orderly [] grown slack ∧ s.Carried s' ∧
      s.Thinned s' (· = .cancelled) := by
  simp only [abort, Action.returns_bind, Action.returns_get]
  split
  · exact Action.returns_pure.mpr ⟨orderly, Carried.refl s, Thinned.refl s _⟩
  · rename_i id found
    have member := OrderedMap.mem_values_of_get? found
    rw [Action.returns_bind]
    refine (leaveQueue_returns orderly member).weaken fun _ s₁ left => ?_
    rw [Action.returns_bind]
    refine (finish_left orderly member left).weaken ?_
    rintro output s₂ ⟨orderly₂, ended⟩
    simp only [Action.returns_bind, Action.returns_modify]
    refine report_returns fun journal => ?_
    rw [Action.returns_pure]
    refine ⟨?_, ?_, ?_⟩
    · have pending : { s₂ with pending := s₂.pending ++ [output] }.Orderly [] grown slack :=
        orderly₂.unmoved rfl ⟨rfl, rfl, fun _ => rfl⟩
      exact pending.reported journal
    · have first : s.Carried s₁ := ⟨left.config, left.cache ▸ .refl⟩
      have both := first.trans ended.carried
      exact ⟨both.config, both.changes.tail (.reported _ journal)⟩
    · exact (ended.thinned orderly member left).kept
        (.of_unmoved ⟨rfl, rfl, fun _ => rfl⟩ fun _ => rfl)

theorem releaseAll_returns (orderly : s.Orderly [] grown slack) (reason : FinishReason) :
    (releaseAll reason).Returns s fun _ s' => s'.Orderly [] grown slack ∧ s.Carried s' ∧
      s.Thinned s' (· = reason) ∧ s'.requests.values = [] := by
  simp only [releaseAll, Action.returns_bind, Action.returns_get, Action.returns_modify,
    Action.returns_pure]
  refine (finishEach_returns s.requests.values orderly orderly.registered.values_nodup
    fun id member => member).weaken ?_
  rintro _ s₁ ⟨orderly₁, carried, thinned, left⟩
  exact ⟨orderly₁.unmoved rfl ⟨rfl, rfl, fun _ => rfl⟩, ⟨carried.config, carried.changes⟩,
    thinned.kept (.of_unmoved ⟨rfl, rfl, fun _ => rfl⟩ fun _ => rfl),
    List.eq_nil_iff_forall_not_mem.mpr fun id member => ((left id).mp member).2 ((left id).mp member).1⟩

theorem releaseAll_of_empty (empty : s.requests.values = []) (reason : FinishReason) :
    releaseAll reason s = .ok [] (counted { s with pending := s.pending ++ [] }) := by
  simp only [releaseAll, bind, EStateM.bind, Action.run_get, empty, finishEach]
  rfl

/-- A draft that the scheduler can work on: its tokens can be hashed, if blocks are shared. -/
structure Takes (s : Scheduler) (d : Draft) : Prop where
  blockSize : d.blockSize = s.config.blockSize
  hashes : s.cache.Hashes d.prompt

/-- A sequence that was constructed and not been taken in. -/
structure Fresh (s : Scheduler) (id : SeqId) : Prop where
  knows : s.cache.Knows id
  status : (s.cache.sequence id).status = .waiting
  outside : id ∉ s.waiting

/-- A sequence may have been constructed. It waits outside the queue. -/
structure Constructed (s s' : Scheduler) : Prop where
  unmoved : s.Unmoved s'
  knows : ∀ id, s.cache.Knows id → s'.cache.Knows id
  others : ∀ id, s.cache.Knows id → s'.cache.sequence id = s.cache.sequence id
  unknown : ∀ id, ¬ s.cache.Knows id → (s'.cache.sequence id).status = .waiting ∧
    (s'.cache.sequence id).computed = 0
  blank : ∀ id, ¬ s.cache.Knows id → (s'.cache.sequence id).completion = [] ∧
    (s'.cache.sequence id).emitted = 0
  pending : s'.pending = s.pending

/-- A fresh sequence was taken in. -/
structure TakenUp (s s' : Scheduler) (id : SeqId) : Prop where
  config : s'.config = s.config
  running : s'.running = s.running
  preempted : s'.preempted = s.preempted
  waiting : s'.waiting = s'.queued id s.waiting
  requests : s'.requests.values = s.requests.values ++ [id]
  sequences : ∀ other, s'.cache.sequence other = s.cache.sequence other
  knows : ∀ other, s'.cache.Knows other ↔ s.cache.Knows other
  accepted : s.checkAdmission (s.cache.sequence id) = .ok ()
  completion : (s.cache.sequence id).completion = []

theorem Orderly.created {c : Cache} {q : Sequence} (orderly : s.Orderly [] [] slack)
    (created : s.cache.Created c id q) (sound : c.Sound) (bare : q.table = [])
    (completion : q.completion = []) (status : q.status = .waiting) (computed : q.computed = 0) :
    { s with cache := c }.Orderly [] [] slack := by
  have old : ∀ other, s.cache.Knows other → c.Knows other :=
    fun other knows => (created.knows_iff other).mpr (Or.inl knows)
  have swapped : ∀ other, c.isSwapped other = s.cache.isSwapped other :=
    fun other => Cache.isSwapped_congr created.swapped other
  have self := created.self
  have device : c.isSwapped id = false := by
    rw [swapped]
    by_contra member
    exact created.unknown
      (orderly.sound.filed.swapped_known id (by simpa [Cache.isSwapped] using member))
  constructor
  case sound => exact sound
  case staged =>
    constructor
    case placed =>
      intro other knows _
      rcases (created.knows_iff other).mp knows with known | rfl
      · exact (orderly.staged.placed other known List.not_mem_nil).congr
          (created.others other known) (swapped other)
      · exact .of_bare (by simp [self, status]) device (self ▸ bare) _
    case progressed =>
      intro other knows
      rcases (created.knows_iff other).mp knows with known | rfl
      · rw [created.others other known]
        exact orderly.staged.progressed other known
      · rw [self]
        exact ⟨by omega, by omega, fun _ => completion⟩
  case lined =>
    refine orderly.lined.transfer (fun _ => rfl) old (fun other known _ => ?_) fun other knows => ?_
    · exact congrArg Sequence.status (created.others other known)
    · rcases (created.knows_iff other).mp knows with known | rfl
      · exact Or.inl known
      · exact Or.inr (self ▸ status)
  case registered =>
    refine orderly.registered.transfer ⟨rfl, rfl, fun _ => rfl⟩ (fun other member => ?_)
      fun other member _ => ?_
    · exact congrArg Sequence.requestId (created.others other (orderly.knows member))
    · exact congrArg Sequence.length (created.others other (orderly.knows member))
  case configured =>
    refine ⟨created.blockSize.trans orderly.configured.blockSize,
      created.sharing.trans orderly.configured.sharing, ?_, fun recompute other => ?_⟩
    · rw [created.device]
      exact orderly.configured.size
    · rw [swapped]
      exact orderly.configured.unswapped recompute other

theorem create_fails {d : Draft} (prompt : d.prompt = []) : (create d).Fails s fun _ s' => s' = s := by
  have fault : s.cache.sequences.create d = .error .emptyPrompt := by simp [Store.create, prompt]
  simp only [create, onCache, Action.fails_within, Cache.create?, Action.fails_bind,
    Action.returns_get, Action.fails_ofExcept, fault]
  exact Or.inr (Or.inl ⟨_, rfl, trivial⟩)

/-- Constructing a sequence keeps a scheduler orderly, also if the draft is refused. -/
theorem create_orderly (orderly : s.Orderly [] [] slack) {d : Draft} (takes : s.Takes d) :
    ((create d).after s).Orderly [] [] slack ∧ s.Carried ((create d).after s) ∧
      s.Constructed ((create d).after s) := by
  by_cases prompt : d.prompt = []
  · obtain ⟨_, same⟩ := (create_fails prompt).after
    rw [same]
    refine ⟨orderly, Carried.refl s, ⟨rfl, rfl, fun _ => rfl⟩, fun _ knows => knows, fun _ _ => rfl,
      fun other unknown => ?_, fun other unknown => ?_, rfl⟩
    all_goals
      rw [Cache.sequence_of_unknown unknown]
      exact ⟨rfl, rfl⟩
  · have size : 0 < d.blockSize := by
      rw [takes.blockSize]
      exact Int.ofNat_lt.mpr s.config.blockSize_pos
    have returns : (create d).Returns s fun _ s' => s'.Orderly [] [] slack ∧ s.Carried s' ∧
        s.Constructed s' := by
      simp only [create, returns_onCache]
      refine (Cache.create_returns prompt size).weaken ?_
      rintro id c ⟨q, created, number, bare, blockSize, text, completion, status, computed, emitted, -⟩
      have sized : q.blockSize = s.cache.blockSize := by
        have := takes.blockSize
        have := orderly.configured.blockSize
        omega
      have sound : c.Sound := by
        refine created.sound orderly.sound bare number sized ?_
        rw [Sequence.tokens, text, completion, List.append_nil]
        exact takes.hashes
      refine ⟨orderly.created created sound bare completion status computed,
        ⟨rfl, .single (.created created bare)⟩, ⟨rfl, rfl, fun _ => rfl⟩,
        fun other knows => (created.knows_iff other).mpr (Or.inl knows), created.others,
        fun other unknown => ?_, fun other unknown => ?_, rfl⟩
      all_goals rcases created.beyond unknown with same | same <;> rw [same]
      · exact ⟨status, computed⟩
      · exact ⟨rfl, rfl⟩
      · exact ⟨completion, emitted⟩
      · exact ⟨rfl, rfl⟩
    exact returns.after.elim fun _ holds => holds

theorem checkAdmission_ok {q : Sequence} (accepted : s.checkAdmission q = .ok ()) :
    s.requests.contains q.requestId = false ∧ q.prompt.length < s.config.maxLength := by
  unfold checkAdmission checkCapacity at accepted
  split at accepted
  · cases accepted
  · rename_i untaken
    split at accepted
    · cases accepted
    · rename_i short
      exact ⟨by simpa using untaken, Nat.lt_of_not_le short⟩

theorem add_refuses {fault : Fault} (verdict : s.checkAdmission (s.cache.sequence id) = .error fault) :
    (add id).Fails s fun _ s' => ∃ journal, s' = { s with cache := { s.cache with journal } } := by
  have same : s.sequence id = s.cache.sequence id := rfl
  simp only [add, Action.fails_bind, Action.returns_get, same, verdict]
  refine Or.inr (Or.inr (report_returns fun journal => ?_))
  exact Action.fails_throw.mpr ⟨journal, rfl⟩

/-- A fresh sequence that is not refused is taken in. -/
theorem add_returns (orderly : s.Orderly [] [] slack) (fresh : s.Fresh id)
    (verdict : s.checkAdmission (s.cache.sequence id) = .ok ()) :
    (add id).Returns s fun _ s' => s'.Orderly [] [] slack ∧ s.Carried s' ∧ s.TakenUp s' id := by
  have same : s.sequence id = s.cache.sequence id := rfl
  simp only [add, Action.returns_bind, Action.returns_get, same, verdict]
  refine edit_returns fresh.knows ⟨rfl, rfl⟩ fun c noted => ?_
  simp only [Action.returns_modify]
  obtain ⟨untaken, short⟩ := checkAdmission_ok verdict
  have placed := orderly.staged.placed id fresh.knows List.not_mem_nil
  have nowhere : ∀ status, id ∉ s.queueOf status := by
    intro status queued
    obtain rfl := (orderly.lined.stands status id queued).2.symm.trans fresh.status
    exact fresh.outside queued
  have handled := Cache.Handled.of_noted orderly.sound noted
  have self := noted.replaced.self
  have progressed := orderly.staged.progressed id fresh.knows
  have device : c.isSwapped id = false := by
    rw [Cache.isSwapped_congr noted.swapped]
    by_contra swapped
    have shelved := (placed.swapped (by simpa using swapped)).1
    simp [fresh.status] at shelved
  let s₁ := { s with requests := s.requests.insert (s.cache.sequence id).requestId id }
  have entered : s₁.Orderly [id] [] slack :=
    orderly.entered fresh.knows nowhere untaken rfl rfl rfl fun _ => rfl
  let s₂ := { s₁ with cache := c }
  have worked : s₂.Orderly [id] [] slack := by
    refine entered.worked handled ⟨rfl, rfl, fun _ => rfl⟩ ?_ fun _ => device
    rw [self]
    exact ⟨progressed.natural, progressed.computed, fun _ => progressed.untouched fresh.status⟩
  have status : (s₂.cache.sequence id).status = .waiting := by rw [self]
  have idle : (s₂.cache.sequence id).status ≠ .running := by simp [status]
  have bare : (s₂.cache.sequence id).table = [] := by
    rw [self]
    exact placed.bare (by simp [fresh.status])
      ((Cache.isSwapped_congr noted.swapped id).symm.trans device)
  have length : (s₂.cache.sequence id).length = (s.cache.sequence id).prompt.length := by
    rw [self]
    simp [Sequence.length, progressed.untouched fresh.status]
  have unchanged : ∀ other, c.sequence other = s.cache.sequence other := by
    intro other
    by_cases equal : other = id
    · rw [equal, self, ← fresh.status]
    · exact handled.others other equal
  refine ⟨?_, ⟨rfl, .single (.noted noted (Int.le_refl _))⟩, ⟨rfl, rfl, rfl, rfl, ?_,
    unchanged, handled.knows_iff, verdict, progressed.untouched fresh.status⟩⟩
  · exact worked.linedUp rfl status (queued_perm _ id _)
      (.of_bare idle device bare _) (length ▸ short)
  · rw [OrderedMap.values, OrderedMap.insert_new untaken, List.map_append]
    rfl

theorem add_orderly (orderly : s.Orderly [] [] slack) (fresh : s.Fresh id) :
    ((add id).after s).Orderly [] [] slack ∧ s.Carried ((add id).after s) ∧
      (s.Kept ((add id).after s) ∨ s.TakenUp ((add id).after s) id) := by
  cases verdict : s.checkAdmission (s.cache.sequence id) with
  | error fault =>
      obtain ⟨_, journal, refused⟩ := (add_refuses verdict).after
      rw [refused]
      exact ⟨orderly.reported journal, ⟨rfl, .single (.reported _ journal)⟩,
        Or.inl (.of_unmoved ⟨rfl, rfl, fun _ => rfl⟩ fun _ => rfl)⟩
  | ok accepted =>
      obtain ⟨_, orderly', carried, taken⟩ := (add_returns orderly fresh verdict).after
      exact ⟨orderly', carried, Or.inr taken⟩

end PagedServing.Scheduler
