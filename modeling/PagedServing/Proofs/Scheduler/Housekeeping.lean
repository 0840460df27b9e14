import PagedServing.Proofs.Cache.Tidiness
import PagedServing.Proofs.Cache.Transcripts
import PagedServing.Proofs.OrderedMap
import PagedServing.Proofs.Scheduler.Intake

/-! # Everybody is in one place

Whoever is queued stands in one queue, is registered under its name, and has blocks if it runs. While
a sequence changes its place it is set aside. An action that meets a fault may lose the sequence that
it has set aside, which then stands in no queue any more; everybody else stays in place, and the cache
stays tidy.
-/

namespace PagedServing

theorem Store.update_unknown {store : Store} {id : SeqId} (f : Sequence → Sequence)
    (unknown : ¬ id < store.nextId) : store.update id f = store := by
  rw [update, List.modify_eq_self (Nat.le_of_not_lt unknown)]

namespace Scheduler

variable {α β : Type} {config : Config} {s t : Scheduler} {id x : SeqId}

/-- Who stands in no queue for the moment. -/
inductive Aside where
  | nobody
  | out (id : SeqId)
  /-- The sequence has blocks. -/
  | held (id : SeqId)

namespace Aside

def ids : Aside → List SeqId
  | nobody => []
  | out id | held id => [id]

def holding : Aside → List SeqId
  | nobody | out _ => []
  | held id => [id]

end Aside

variable {aside aside' aside'' : Aside}

/-- Who stands in a queue or was set aside. -/
def lodged (s : Scheduler) (aside : Aside) : List SeqId :=
  aside.ids ++ (s.waiting ++ (s.preempted ++ s.running))

/-- The cache is tidy, and everybody is in one place. -/
structure Housed (config : Config) (aside : Aside) (s : Scheduler) : Prop where
  tidy : s.cache.Tidy
  blockSize : s.cache.blockSize = config.blockSize
  sharing : s.cache.sharing = config.sharing
  distinct : (s.lodged aside).Nodup
  knows : ∀ x ∈ s.lodged aside, s.cache.Knows x
  registered : ∀ x ∈ s.lodged aside, s.requests.get? (s.sequence x).requestId = some x
  filled : ∀ x ∈ aside.holding ++ s.running, (s.sequence x).table ≠ []

namespace Housed

theorem congr (housed : s.Housed config aside) (cache : t.cache = s.cache)
    (waiting : t.waiting = s.waiting) (preempted : t.preempted = s.preempted)
    (running : t.running = s.running) (requests : t.requests = s.requests) : t.Housed config aside := by
  cases t
  cases s
  dsimp only at cache waiting preempted running requests
  subst cache waiting preempted running requests
  exact ⟨housed.tidy, housed.blockSize, housed.sharing, housed.distinct, housed.knows,
    housed.registered, housed.filled⟩

theorem moved (housed : s.Housed config aside) {waiting preempted running : List SeqId}
    (places : (aside'.ids ++ (waiting ++ (preempted ++ running))).Subperm (s.lodged aside))
    (filled : ∀ x ∈ aside'.holding ++ running, x ∈ aside.holding ++ s.running) :
    ({ s with waiting, preempted, running } : Scheduler).Housed config aside' where
  tidy := housed.tidy
  blockSize := housed.blockSize
  sharing := housed.sharing
  distinct := by
    obtain ⟨ids, perm, sub⟩ := places
    exact perm.nodup_iff.mp (housed.distinct.sublist sub)
  knows x member := housed.knows x (places.subset member)
  registered x member := housed.registered x (places.subset member)
  filled x member := housed.filled x (filled x member)

theorem dropped (housed : s.Housed config aside) : s.Housed config .nobody :=
  housed.moved (List.sublist_append_right _ _).subperm fun _ member =>
    List.mem_append_right _ member

theorem out_of_held (housed : s.Housed config (.held id)) : s.Housed config (.out id) :=
  housed.moved (List.Subperm.refl _) fun _ member => List.mem_append_right _ member

theorem held_of_out (housed : s.Housed config (.out id)) (filled : (s.sequence id).table ≠ []) :
    s.Housed config (.held id) := by
  refine ⟨housed.tidy, housed.blockSize, housed.sharing, housed.distinct, housed.knows,
    housed.registered, fun x member => ?_⟩
  rcases List.mem_cons.mp member with rfl | runs
  · exact filled
  · exact housed.filled x runs

/-- It is enough to count who stands where. -/
theorem recounted (housed : s.Housed config aside) {waiting preempted running : List SeqId}
    (same : ∀ x, aside'.ids.count x + (waiting.count x + (preempted.count x + running.count x)) =
      aside.ids.count x + (s.waiting.count x + (s.preempted.count x + s.running.count x)))
    (filled : ∀ x ∈ aside'.holding ++ running, x ∈ aside.holding ++ s.running) :
    ({ s with waiting, preempted, running } : Scheduler).Housed config aside' :=
  housed.moved (List.perm_iff_count.mpr fun x => by
    simpa only [lodged, List.count_append] using same x).subperm filled

section Places

variable {rest : List SeqId}

theorem leaves_waiting (housed : s.Housed config .nobody) (perm : s.waiting.Perm (id :: rest)) :
    ({ s with waiting := rest } : Scheduler).Housed config (.out id) :=
  housed.recounted (fun x => by have := perm.count_eq x; simp [Aside.ids, this, List.count_cons]; omega)
    fun _ runs => runs

theorem leaves_preempted (housed : s.Housed config .nobody) (perm : s.preempted.Perm (id :: rest)) :
    ({ s with preempted := rest } : Scheduler).Housed config (.out id) :=
  housed.recounted (fun x => by have := perm.count_eq x; simp [Aside.ids, this, List.count_cons]; omega)
    fun _ runs => runs

theorem leaves_running (housed : s.Housed config .nobody) (perm : s.running.Perm (id :: rest)) :
    ({ s with running := rest } : Scheduler).Housed config (.held id) :=
  housed.recounted (fun x => by have := perm.count_eq x; simp [Aside.ids, this, List.count_cons]; omega)
    fun _ runs => perm.mem_iff.mpr runs

theorem joins_preempted (housed : s.Housed config (.out id)) :
    ({ s with preempted := s.queued id s.preempted } : Scheduler).Housed config .nobody :=
  housed.recounted (fun x => by
    have := (queued_perm s id s.preempted).count_eq x
    simp [Aside.ids, this, List.count_cons]; omega) fun _ runs => runs

theorem joins_running (housed : s.Housed config (.held id)) :
    ({ s with running := s.queued id s.running } : Scheduler).Housed config .nobody :=
  housed.recounted (fun x => by
    have := (queued_perm s id s.running).count_eq x
    simp [Aside.ids, this, List.count_cons]; omega) fun _ runs => (queued_perm s id _).mem_iff.mp runs

end Places

theorem acted (housed : s.Housed config aside) {c : Cache} {except : List SeqId}
    (attended : s.cache.Attended c except) (apart : ∀ x ∈ aside.holding ++ s.running, x ∉ except) :
    ({ s with cache := c } : Scheduler).Housed config aside where
  tidy := attended.tidy
  blockSize := attended.blockSize.trans housed.blockSize
  sharing := attended.sharing.trans housed.sharing
  distinct := housed.distinct
  knows x member := (attended.knows_iff x).mpr (housed.knows x member)
  registered x member := by
    have name : (c.sequence x).requestId = (s.cache.sequence x).requestId :=
      congrArg Origin.requestId (attended.origin x)
    exact (congrArg s.requests.get? name).trans (housed.registered x member)
  filled x member := attended.filled x (apart x member) (housed.filled x member)

theorem attended (housed : s.Housed config aside) {c : Cache} (attended : s.cache.Attended c []) :
    ({ s with cache := c } : Scheduler).Housed config aside :=
  housed.acted attended fun _ _ => List.not_mem_nil

theorem not_mem_of_out (housed : s.Housed config (.out id)) : id ∉ s.lodged .nobody :=
  (List.nodup_cons.mp housed.distinct).1

theorem not_running_of_out (housed : s.Housed config (.out id)) : id ∉ s.running := fun runs =>
  housed.not_mem_of_out (by simp [lodged, runs])

/-- Who was set aside is forgotten. -/
theorem forgotten (housed : s.Housed config (.out id)) (ended : Nat) :
    ({ s with requests := s.requests.erase (s.sequence id).requestId, ended } :
      Scheduler).Housed config .nobody := by
  have rest := housed.dropped
  refine ⟨rest.tidy, rest.blockSize, rest.sharing, rest.distinct, rest.knows, fun x member => ?_,
    rest.filled⟩
  have found := rest.registered x member
  refine (OrderedMap.get?_erase ..).trans ?_
  rw [if_neg]
  · exact found
  · -- one name leads to one request
    intro same
    have own := housed.registered id List.mem_cons_self
    have same : (s.sequence x).requestId = (s.sequence id).requestId := same
    rw [← same, found] at own
    obtain rfl := Option.some.inj own
    exact housed.not_mem_of_out member

end Housed

/-- From a scheduler with `before` set aside, the action leads to one with `after` set aside, or by a
    fault to one with nobody set aside. Everybody else is in place. -/
def Tidies (config : Config) (before : Aside) (act : Action Scheduler α) (after : Aside) : Prop :=
  ∀ s, s.Housed config before → act.Yields s (fun _ => Housed config after)
    fun _ => Housed config .nobody

namespace Tidies

variable {act act' : Action Scheduler α} {next : α → Action Scheduler β}

theorem pure (a : α) : Tidies config aside (pure a) aside :=
  fun _ housed => housed

theorem throw (fault : Fault) : Tidies config aside (throw fault : Action Scheduler α) aside' :=
  fun _ housed => housed.dropped

theorem bind (first : Tidies config aside act aside') (rest : ∀ a, Tidies config aside' (next a) aside'') :
    Tidies config aside (act >>= next) aside'' := fun s housed =>
  Action.yields_bind.mpr ((first s housed).weaken (fun a t => rest a t) fun _ _ holds => holds)

theorem andThen (first : Tidies config aside act aside') {p : Scheduler → Prop} (apart : act.Preserves p)
    {s : Scheduler} (housed : s.Housed config aside) (holds : p s)
    (rest : ∀ a t, t.Housed config aside' → p t →
      (next a).Yields t (fun _ => Housed config aside'') fun _ => Housed config .nobody) :
    (act >>= next).Yields s (fun _ => Housed config aside'') fun _ => Housed config .nobody :=
  Action.yields_bind.mpr (((first s housed).and (apart s holds)).weaken
    (fun a t both => rest a t both.1 both.2) fun _ _ => And.left)

theorem get_bind {next : Scheduler → Action Scheduler α}
    (rest : ∀ s, s.Housed config aside → (next s).Yields s (fun _ => Housed config aside')
      fun _ => Housed config .nobody) : Tidies config aside (get >>= next) aside' := fun s housed =>
  Action.yields_bind.mpr (rest s housed)

theorem ite {condition : Prop} [Decidable condition] (first : Tidies config aside act aside')
    (second : Tidies config aside act' aside') :
    Tidies config aside (if condition then act else act') aside' := by
  split
  · exact first
  · exact second

theorem modify {f : Scheduler → Scheduler}
    (kept : ∀ s, s.Housed config aside → (f s).Housed config aside') :
    Tidies config aside (modify f) aside' :=
  kept

theorem require (condition : Bool) (fault : Fault) :
    Tidies config aside (Action.require condition fault) aside := fun _ housed =>
  Action.yields_require.mpr ⟨fun _ => housed, fun _ => housed.dropped⟩

theorem out (tidies : Tidies config aside act (.held id)) : Tidies config aside act (.out id) :=
  fun s housed => (tidies s housed).weaken (fun _ _ => Housed.out_of_held) fun _ _ holds => holds

theorem of_held (tidies : Tidies config (.out id) act aside) : Tidies config (.held id) act aside :=
  fun s housed => tidies s housed.out_of_held

theorem look_bind {next : Sequence → Action Scheduler α}
    (rest : ∀ s, s.Housed config aside → (next (s.sequence id)).Yields s
      (fun _ => Housed config aside') fun _ => Housed config .nobody) :
    Tidies config aside (look id >>= next) aside' := fun s housed =>
  Action.yields_bind.mpr (rest s housed)

theorem onCache {act : Action Cache α}
    (each : ∀ s : Scheduler, s.Housed config aside → act.Yields s.cache
      (fun _ c => ({ s with cache := c } : Scheduler).Housed config aside')
      fun _ c => ({ s with cache := c } : Scheduler).Housed config .nobody) :
    Tidies config aside (Scheduler.onCache act) aside' := fun s housed =>
  Action.yields_within.mpr (each s housed)

end Tidies

theorem look_tidies (id : SeqId) : Tidies config aside (look id) aside :=
  .onCache fun _ housed => housed

theorem report_tidies (severity : Logging.Severity) (message : String) :
    Tidies config aside (report severity message) aside :=
  .onCache fun _ housed => housed.attended ((Cache.Attended.refl housed.tidy []).reported _)

/-- Something is noted about a sequence, or about none. -/
theorem edit_tidies (id : SeqId) {f : Sequence → Sequence} (alike : ∀ q, Cache.Alike q (f q))
    (measured : ∀ q, q.computed ≤ q.length → (f q).computed ≤ (f q).length) :
    Tidies config aside (edit id f) aside := by
  refine .onCache fun s housed => ?_
  rw [Cache.edit, Action.yields_modify]
  by_cases knows : s.cache.Knows id
  · have edited := housed.tidy.edited knows (alike _) (measured _ (housed.tidy.measured id knows))
    refine housed.attended (edited.attended fun _ filled => ?_)
    rw [(Cache.replaced_edit knows f).self, (alike _).table]
    exact filled
  · rw [Store.update_unknown f knows]
    exact housed

theorem recompute_tidies (id : SeqId) :
    Tidies config aside (edit id fun q => { q with computed := 0 }) aside :=
  edit_tidies id (fun _ => ⟨rfl, rfl⟩) fun _ _ => Int.natCast_nonneg _

theorem without_perm {queue rest : List SeqId} (left : without id queue = .ok rest) :
    queue.Perm (id :: rest) := by
  unfold without at left
  split at left
  · obtain rfl := Except.ok.inj left
    exact List.perm_cons_erase ‹_›
  · cases left

theorem stopRunning_tidies (id : SeqId) :
    Tidies config .nobody (stopRunning id) (.held id) := by
  refine .get_bind fun s housed => Action.yields_bind.mpr (Action.yields_ofExcept.mpr
    ⟨fun rest left => ?_, fun _ _ => housed⟩)
  exact housed.leaves_running (without_perm left)

theorem leaveQueue_tidies (id : SeqId) : Tidies config .nobody (leaveQueue id) (.out id) := by
  refine .get_bind fun s housed => ?_
  dsimp only
  split
  case h_1 => exact Action.yields_bind.mpr (Action.yields_ofExcept.mpr
    ⟨fun rest left => housed.leaves_waiting (without_perm left), fun _ _ => housed⟩)
  case h_2 => exact (stopRunning_tidies id).out s housed
  case h_3 => exact Action.yields_bind.mpr (Action.yields_ofExcept.mpr
    ⟨fun rest left => housed.leaves_preempted (without_perm left), fun _ _ => housed⟩)
  all_goals exact housed

theorem Housed.release_yields (housed : s.Housed config aside) (knows : s.cache.Knows id)
    (idle : id ∉ aside.holding ++ s.running) :
    (Cache.release id).Yields s.cache (fun _ c => ({ s with cache := c } : Scheduler).Housed config aside)
      fun _ c => ({ s with cache := c } : Scheduler).Housed config aside := by
  have apart : ∀ x ∈ aside.holding ++ s.running, x ∉ [id] := fun x member same =>
    idle (List.mem_singleton.mp same ▸ member)
  exact (Cache.release_tidies housed.tidy knows).weaken
    (fun _ _ result => housed.acted result.1.attended_except apart)
    fun _ _ tidied => housed.acted tidied.attended_except apart

theorem release_tidies (id : SeqId) : Tidies config (.out id) (onCache (Cache.release id)) (.out id) :=
  .onCache fun _ housed => (housed.release_yields (housed.knows id List.mem_cons_self)
    housed.not_running_of_out).weaken (fun _ _ holds => holds) fun _ _ => Housed.dropped

theorem forget_tidies {next : Sequence → Action Scheduler α}
    (rest : ∀ q, Tidies config .nobody (next q) .nobody) :
    Tidies config (.out id) (do
      let q ← look id
      modify fun s => { s with requests := s.requests.erase q.requestId, ended := s.ended + 1 }
      next q) .nobody :=
  .look_bind fun _ housed =>
    Action.yields_bind.mpr (Action.yields_modify.mpr (rest _ _ (housed.forgotten _)))

/-- Whoever was set aside ends. -/
theorem finish_tidies (id : SeqId) (reason : FinishReason) (error : Option String) :
    Tidies config (.out id) (finish id reason error) .nobody := by
  refine .bind (look_tidies id) fun _ => .ite (.bind (release_tidies id) fun _ => ?_) ?_
  all_goals
    exact .bind (edit_tidies id (fun _ => ⟨rfl, rfl⟩) fun _ few => few) fun _ =>
      forget_tidies fun q => .bind (report_tidies _ _) fun _ =>
      .bind (edit_tidies id (fun _ => ⟨rfl, rfl⟩) fun _ few => few) fun _ => .pure _

/-- Something is noted about the scheduler that has nothing to do with places. -/
theorem note_tidies {f : Scheduler → Scheduler}
    (same : ∀ s, (f s).cache = s.cache ∧ (f s).waiting = s.waiting ∧ (f s).preempted = s.preempted ∧
      (f s).running = s.running ∧ (f s).requests = s.requests) :
    Tidies config aside (modify f) aside :=
  .modify fun s housed => by
    obtain ⟨cache, waiting, preempted, running, requests⟩ := same s
    exact housed.congr cache waiting preempted running requests

theorem abort_tidies (name : String) : Tidies config .nobody (abort name) .nobody := by
  refine .get_bind fun s housed => ?_
  split
  · exact housed
  · refine Tidies.bind (leaveQueue_tidies _) (fun _ => .bind (finish_tidies _ _ _) fun _ =>
      .bind (note_tidies ?_) fun _ => .bind (report_tidies _ _) fun _ => .pure _) s housed
    exact fun _ => ⟨rfl, rfl, rfl, rfl, rfl⟩

theorem finishEach_tidies (reason : FinishReason) (ids : List SeqId) :
    Tidies config .nobody (finishEach reason ids) .nobody := by
  induction ids with
  | nil => exact .pure _
  | cons id rest ih =>
      exact .bind (leaveQueue_tidies id) fun _ => .bind (finish_tidies id _ _) fun _ =>
        .bind ih fun _ => .pure _

theorem releaseAll_tidies (reason : FinishReason) :
    Tidies config .nobody (releaseAll reason) .nobody := by
  refine .get_bind fun s housed => ?_
  refine Tidies.bind (finishEach_tidies reason s.requests.values) (fun _ =>
    .bind (note_tidies ?_) fun _ => .pure _) s housed
  exact fun _ => ⟨rfl, rfl, rfl, rfl, rfl⟩

theorem takePending_tidies : Tidies config .nobody takePending .nobody :=
  fun _ housed => housed.congr rfl rfl rfl rfl rfl

/-- A sequence that was constructed is taken in. Nobody else was registered under its name. -/
theorem Housed.taken (housed : s.Housed config .nobody) (knows : s.cache.Knows id) {name : String}
    (named : (s.sequence id).requestId = name) (free : s.requests.get? name = none) :
    ({ s with waiting := s.queued id s.waiting, requests := s.requests.insert name id } :
      Scheduler).Housed config .nobody := by
  have stranger : id ∉ s.lodged .nobody := fun member => by
    rw [← named, housed.registered id member] at free
    cases free
  have perm : (s.queued id s.waiting ++ (s.preempted ++ s.running)).Perm (id :: s.lodged .nobody) :=
    (queued_perm s id s.waiting).append_right _
  refine ⟨housed.tidy, housed.blockSize, housed.sharing, ?_, fun x member => ?_, fun x member => ?_,
    housed.filled⟩
  · exact perm.nodup_iff.mpr (List.nodup_cons.mpr ⟨stranger, housed.distinct⟩)
  · rcases List.mem_cons.mp (perm.mem_iff.mp member) with rfl | old
    · exact knows
    · exact housed.knows x old
  · refine (OrderedMap.get?_insert ..).trans ?_
    rcases List.mem_cons.mp (perm.mem_iff.mp member) with rfl | old
    · exact if_pos named
    · have found := housed.registered x old
      rw [if_neg]
      · exact found
      · intro same
        have same : (s.sequence x).requestId = name := same
        rw [← same, found] at free
        cases free

theorem add_tidies (housed : s.Housed config .nobody) (knows : s.cache.Knows id) :
    (add id).Yields s (fun _ => Housed config .nobody) fun _ => Housed config .nobody := by
  rw [add, Action.yields_bind, Action.yields_get]
  dsimp only
  split
  · exact Tidies.bind (report_tidies _ _) (fun _ => .throw _) s housed
  · rename_i verdict
    have edited := edit_tidies id (f := fun q => { q with status := .waiting }) (fun _ => ⟨rfl, rfl⟩)
      (fun _ few => few) s housed
    have replaced := Cache.replaced_edit knows fun q => { q with status := .waiting }
    have free : s.requests.get? (s.sequence id).requestId = none := by
      unfold checkAdmission at verdict
      split at verdict
      · cases verdict
      · exact OrderedMap.contains_eq_false_iff.mp (Bool.eq_false_iff.mpr ‹_›)
    simp only [edit, onCache, Cache.edit, Action.yields_bind, Action.yields_within,
      Action.yields_modify] at edited ⊢
    have named := congrArg Sequence.requestId replaced.self
    exact edited.taken ((replaced.knows_iff id).mpr knows) named free

end Scheduler

end PagedServing
