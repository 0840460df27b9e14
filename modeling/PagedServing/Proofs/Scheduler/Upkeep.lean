import PagedServing.Proofs.Scheduler.Housekeeping
import PagedServing.Proofs.Scheduler.Submission

/-! # Upkeep

Everybody stays in place through an iteration, whatever the device answers and wherever a fault is
met. So in every state that is reached the cache is tidy, if the blocks of all sequences are of one
size.
-/

namespace PagedServing

variable {c : Cache}

/-- The blocks of all sequences are of one size. -/
def Cache.Uniform (c : Cache) (size : Nat) : Prop :=
  ∀ id, c.Knows id → (c.sequence id).blockSize = size

theorem Cache.uniform_iff {kept : List Origin} (origins : c.origins = kept) (size : Nat) :
    c.Uniform size ↔ ∀ o ∈ kept, o.blockSize = size := by
  rw [← origins, Cache.origins, List.forall_mem_map, List.forall_mem_iff_getElem]
  refine forall₂_congr fun id knows => ?_
  rw [Cache.sequence, Store.get, List.getD_eq_getElem?_getD, List.getElem?_eq_getElem knows]
  rfl

namespace Assembly

/-- Whoever is considered for a batch keeps its blocks. -/
theorem consider_attends (l : Limits) (a : Assembly) (id : SeqId) :
    (consider l a id).Preserves fun c' => c.Attended c' [] := by
  refine .get_bind fun c₁ attended => ?_
  dsimp only
  split
  · exact attended
  split
  · exact attended
  split
  · exact attended
  split
  · exact attended
  split
  · exact attended
  · rename_i runs _ _ _ _
    have knows : c₁.Knows id := by
      by_contra unknown
      rw [Cache.sequence_of_unknown unknown] at runs
      exact runs (by decide)
    simp only [takeIn, Cache.look, Action.yields_bind, Action.yields_get, Action.yields_pure,
      Action.yields_ofExcept]
    refine (Cache.grow_tidies attended.tidy knows _).weaken ?_ ?_
    · rintro _ c₂ ⟨tidied, filled⟩
      have attended' := attended.trans (tidied.attended fun _ => filled)
      exact ⟨fun _ _ => attended', fun _ _ => attended'⟩
    · rintro _ _ rfl
      exact attended

theorem build_attends (l : Limits) (candidates : List SeqId) :
    (build l candidates).Preserves fun c' => c.Attended c' [] := by
  refine .get_bind fun c₁ attended => ?_
  refine Action.Preserves.bind (.foldlM (fun a id => consider_attends l a id) _ _) (fun a => .ite
    (.bind (.modify fun c₂ attended => ?_) fun _ => .pure _) (.pure _)) c₁ attended
  exact attended.reported _

end Assembly

namespace Scheduler

variable {α ω : Type} {config : Config} {s : Scheduler} {id : SeqId} {aside : Aside}

theorem onCache_elsewhere {act : Action Cache α} {p : Scheduler → Prop}
    (blind : ∀ (s : Scheduler) c, p s → p { s with cache := c }) : (onCache act).Preserves p :=
  .elsewhere blind

theorem evict_tidies (id : SeqId) : Tidies config (.held id) (evict id) (.out id) := by
  refine .get_bind fun s housed => ?_
  split
  · refine Tidies.bind (.onCache fun s housed => ?_) (fun _ => .pure _) s housed
    have knows := housed.knows id List.mem_cons_self
    have out := housed.out_of_held
    refine (Cache.swapOut_tidies housed.tidy knows (housed.filled id List.mem_cons_self)).weaken ?_ ?_
    · intro _ c tidied
      refine out.acted tidied.attended_except fun x runs same => ?_
      exact out.not_running_of_out (List.mem_singleton.mp same ▸ runs)
    · rintro _ _ rfl
      exact housed.dropped
  · exact Tidies.bind (release_tidies id).of_held (fun _ => .bind (recompute_tidies id) fun _ => .pure _)
      s housed

theorem preempt_tidies (id : SeqId) : Tidies config (.held id) (preempt id) .nobody := by
  refine .bind (edit_tidies id (fun _ => ⟨rfl, rfl⟩) fun _ few => few) fun _ => .bind (note_tidies ?_)
    fun _ => .bind (evict_tidies id) fun _ => .bind (edit_tidies id (fun _ => ⟨rfl, rfl⟩) fun _ few => few)
    fun _ => .bind (.modify fun _ => Housed.joins_preempted) fun _ =>
    .get_bind fun s housed => Tidies.bind (report_tidies _ _) (fun _ => .pure _) s housed
  exact fun _ => ⟨rfl, rfl, rfl, rfl, rfl⟩

theorem preempt_running (id : SeqId) (running : List SeqId) :
    (preempt id).Preserves fun s => s.running = running := by
  have cached : ∀ {α : Type} (act : Action Cache α), (onCache act).Preserves fun s => s.running = running :=
    fun act => onCache_elsewhere fun _ _ same => same
  refine .bind (cached _) fun _ => .bind (.modify fun _ same => same) fun _ => .bind ?_ fun _ =>
    .bind (cached _) fun _ => .bind (.modify fun _ same => same) fun _ => .bind .get fun _ =>
    .bind (cached _) fun _ => .pure _
  exact .bind .get fun _ => .ite (.bind (cached _) fun _ => .pure _)
    (.bind (cached _) fun _ => .bind (cached _) fun _ => .pure _)

theorem reserve_tidies (ids : List SeqId) : ∀ moves s, s.Housed config .nobody → s.running = ids.reverse →
    (reserve moves ids).Yields s (fun _ => Housed config .nobody) fun _ => Housed config .nobody := by
  induction ids with
  | nil => exact fun _ _ housed _ => housed
  | cons latest others ih =>
      intro moves s housed runs
      rw [reserve, Action.yields_bind, Action.yields_get]
      split
      · exact housed
      · rw [List.reverse_cons] at runs
        have held : ({ s with running := s.running.dropLast } : Scheduler).Housed config (.held latest) := by
          refine housed.leaves_running ?_
          rw [runs, List.dropLast_concat]
          exact List.perm_append_singleton _ _
        rw [Action.yields_bind, Action.yields_set]
        refine (preempt_tidies latest).andThen (preempt_running latest others.reverse) held ?_ fun _ => ih _
        rw [runs, List.dropLast_concat]

theorem allocate_tidies (id : SeqId) :
    Tidies config (.out id) (onCache (Cache.allocate id)) (.held id) := by
  refine .onCache fun s housed => ?_
  have apart : ∀ x ∈ Aside.holding (.out id) ++ s.running, x ∉ [id] := fun x runs same =>
    housed.not_running_of_out (List.mem_singleton.mp same ▸ runs)
  exact (Cache.allocate_tidies housed.tidy (housed.knows id List.mem_cons_self)).weaken
    (fun _ _ both => (housed.acted both.1.attended_except apart).held_of_out both.2)
    fun _ _ tidied => (housed.acted tidied.attended_except apart).dropped

theorem restore_tidies (id : SeqId) : Tidies config (.out id) (restore id) (.held id) := by
  refine .get_bind fun s housed => ?_
  split
  · have apart : ∀ x ∈ Aside.holding (.out id) ++ s.running, x ∉ [id] := fun x runs same =>
      housed.not_running_of_out (List.mem_singleton.mp same ▸ runs)
    refine Action.yields_within.mpr
      ((Cache.swapIn_tidies housed.tidy (housed.knows id List.mem_cons_self)).weaken ?_ ?_)
    · exact fun _ _ both => (housed.acted both.1.attended_except apart).held_of_out both.2
    · rintro _ _ rfl
      exact housed.dropped
  · exact (allocate_tidies id).bind (fun _ => .pure _) s housed

theorem startRunning_tidies (plan : Plan) (id : SeqId) :
    Tidies config (.held id) (startRunning plan id) .nobody :=
  .bind (edit_tidies id (fun _ => ⟨rfl, rfl⟩) fun _ few => few) fun _ =>
    .bind (.modify fun _ => Housed.joins_running) fun _ => .get_bind fun _ housed => housed

theorem startRunning_apart {p : Scheduler → Prop} (blind : ∀ (s : Scheduler) c, p s → p { s with cache := c })
    (joins : ∀ (s : Scheduler) running, p s → p { s with running }) (plan : Plan) (id : SeqId) :
    (startRunning plan id).Preserves p :=
  .bind (onCache_elsewhere blind) fun _ => .bind (.modify fun s holds => joins s _ holds) fun _ =>
    .bind .get fun _ => .pure _

theorem readmit_tidies (ids : List SeqId) : ∀ plan s, s.Housed config .nobody → s.preempted = ids →
    ( readmit plan ids).Yields s (fun _ => Housed config .nobody) fun _ => Housed config .nobody := by
  induction ids with
  | nil => exact fun _ _ housed _ => housed
  | cons id rest ih =>
      intro plan s housed waits
      have blind : ∀ (s : Scheduler) c, s.preempted = rest →
          ({ s with cache := c } : Scheduler).preempted = rest := fun _ _ same => same
      unfold readmit
      rw [Action.yields_bind, Action.yields_get]
      split
      · exact housed
      · have out : ({ s with preempted := rest } : Scheduler).Housed config (.out id) :=
          housed.leaves_preempted (waits ▸ List.Perm.refl _)
        have restored : (restore id).Preserves fun s => s.preempted = rest :=
          .bind .get fun _ => .ite (onCache_elsewhere blind)
            (.bind (onCache_elsewhere blind) fun _ => .pure _)
        rw [Action.yields_bind, Action.yields_set]
        refine (restore_tidies id).andThen restored out rfl fun moves t held same => ?_
        refine (startRunning_tidies _ id).andThen (startRunning_apart blind (fun _ _ same => same) _ id)
          held same fun plan' u housed same => ?_
        refine (look_tidies id).andThen (onCache_elsewhere blind) housed same fun q v housed same => ?_
        exact (report_tidies _ _).andThen (onCache_elsewhere blind) housed same fun _ => ih plan'

theorem admitWaiting_tidies (ids : List SeqId) : ∀ plan s, s.Housed config .nobody → s.waiting = ids →
    (admitWaiting plan ids).Yields s (fun _ => Housed config .nobody) fun _ => Housed config .nobody := by
  induction ids with
  | nil => exact fun _ _ housed _ => housed
  | cons id rest ih =>
      intro plan s housed waits
      have blind : ∀ (s : Scheduler) c, s.waiting = rest →
          ({ s with cache := c } : Scheduler).waiting = rest := fun _ _ same => same
      rw [admitWaiting, Action.yields_bind, Action.yields_get]
      split
      · exact housed
      · have out : ({ s with waiting := rest } : Scheduler).Housed config (.out id) :=
          housed.leaves_waiting (waits ▸ List.Perm.refl _)
        rw [Action.yields_bind, Action.yields_set]
        refine (allocate_tidies id).andThen (onCache_elsewhere blind) out rfl fun _ t held same => ?_
        exact (startRunning_tidies _ id).andThen (startRunning_apart blind (fun _ _ same => same) _ id)
          held same ih

theorem rejectEach_tidies (ids : List SeqId) : Tidies config .nobody (rejectEach ids) .nobody := by
  induction ids with
  | nil => exact .pure _
  | cons id rest ih =>
      refine .bind (stopRunning_tidies id) fun _ => .bind (finish_tidies id _ _).of_held fun _ =>
        .bind (note_tidies ?_) fun _ => ih
      exact fun _ => ⟨rfl, rfl, rfl, rfl, rfl⟩

theorem schedule_tidies : Tidies config .nobody schedule .nobody := by
  refine .bind (note_tidies ?_) fun _ => .get_bind fun s₀ housed₀ => ?_
  · exact fun _ => ⟨rfl, rfl, rfl, rfl, rfl⟩
  rw [Action.yields_bind]
  refine (reserve_tidies _ {} s₀ housed₀ (List.reverse_reverse _).symm).weaken ?_ fun _ _ holds => holds
  intro swapOut s₁ housed₁
  rw [Action.yields_bind, Action.yields_get, Action.yields_bind]
  refine (readmit_tidies _ _ s₁ housed₁ rfl).weaken ?_ fun _ _ holds => holds
  intro plan s₂ housed₂
  rw [Action.yields_bind, Action.yields_get]
  have rest : ∀ plan : Plan, Tidies config .nobody (do
      let s ← get
      let assembly ← onCache (Assembly.build s.limits s.running)
      rejectEach assembly.rejected
      return ({ assembly.batch with swapIn := plan.swapIn, swapOut } : Batch)) .nobody := by
    refine fun plan => .get_bind fun s housed => ?_
    have built : Tidies config .nobody (onCache (Assembly.build s.limits s.running)) .nobody := by
      refine .onCache fun t housed => ?_
      exact (Assembly.build_attends _ _ _ (.refl housed.tidy [])).weaken
        (fun _ _ attended => housed.attended attended) fun _ _ attended => housed.attended attended
    exact built.bind (fun a => .bind (rejectEach_tidies _) fun _ => .pure _) s housed
  split
  · rw [Action.yields_bind]
    exact (admitWaiting_tidies _ _ s₂ housed₂ rfl).weaken (fun plan t => rest plan t) fun _ _ holds => holds
  · exact rest plan s₂ housed₂

theorem prepare_tidies : Tidies config .nobody prepare .nobody :=
  .bind schedule_tidies fun _ => .get_bind fun s housed =>
    takePending_tidies.bind (fun _ => .pure _) s housed

theorem append_tidies (id : SeqId) (token : Int) :
    Tidies config aside (onCache (Cache.append id token)) aside := by
  refine .onCache fun s housed => ?_
  by_cases knows : s.cache.Knows id
  · refine (Cache.append_tidies housed.tidy knows token).weaken ?_ ?_
    · rintro _ c ⟨tidied, table⟩
      exact housed.attended (tidied.attended fun _ filled => table ▸ filled)
    · rintro _ _ rfl
      exact housed.dropped
  · simp only [Cache.append, Cache.look, Cache.edit, Action.yields_bind, Action.yields_get,
      Action.yields_pure, Action.yields_ofExcept, Action.yields_modify, Store.update_unknown _ knows]
    exact ⟨fun _ _ => housed, fun _ _ => housed.dropped⟩

theorem publish_tidies (id : SeqId) : Tidies config aside (onCache (Cache.publish id)) aside := by
  refine .onCache fun s housed => ?_
  by_cases knows : s.cache.Knows id
  · have kept : ∀ {c}, s.cache.Tidied c id ∧ s.cache.Relabelled c →
        ({ s with cache := c } : Scheduler).Housed config aside := fun both =>
      housed.attended (both.1.attended fun _ filled => both.2.sequence id ▸ filled)
    exact (Cache.publish_tidies housed.tidy knows).weaken (fun _ _ => kept)
      fun _ _ both => (kept both).dropped
  · have nothing : s.cache.publishable id = 0 := by
      simp [Cache.publishable, Cache.table_of_unknown knows]
    simp only [Cache.publish, nothing, Action.yields_bind, Action.yields_get]
    split <;> exact housed

theorem commitOne_tidies (id : SeqId) (sample : Sample) :
    Tidies config .nobody (commitOne id sample) .nobody := by
  have ends : ∀ reason error, Tidies config .nobody
      (do stopRunning id; finish id reason error : Action Scheduler Output) .nobody :=
    fun reason error => .bind (stopRunning_tidies id) fun _ => (finish_tidies id reason error).of_held
  refine .bind (look_tidies id) fun q => .bind (.require _ _) fun _ =>
    .bind (edit_tidies id (fun _ => ⟨rfl, rfl⟩) fun _ _ => Int.le_refl _) fun _ => .ite (ends _ _) ?_
  refine .bind (append_tidies id _) fun _ => .ite (.bind (publish_tidies id) fun _ => ?_) ?_
  -- whether the blocks are published or not, the sequence ends or goes on
  all_goals
    refine .get_bind fun s housed => ?_
    refine Tidies.bind (look_tidies id) (fun q => ?_) s housed
    split
    · exact ends _ _
    · exact .bind (edit_tidies id (fun _ => ⟨rfl, rfl⟩) fun _ few => few) fun _ => .pure _

theorem commitEach_tidies (samples : List (SeqId × Sample)) :
    Tidies config .nobody (commitEach samples) .nobody := by
  induction samples with
  | nil => exact .pure _
  | cons first rest ih =>
      exact .bind (commitOne_tidies first.1 first.2) fun _ => .bind ih fun _ => .pure _

theorem failEach_tidies (text : String) (ids : List SeqId) :
    Tidies config .nobody (failEach text ids) .nobody := by
  induction ids with
  | nil => exact .pure _
  | cons id rest ih =>
      exact .bind (look_tidies id) fun _ => .ite (.bind (stopRunning_tidies id) fun _ =>
        .bind (finish_tidies id _ _).of_held fun _ => .bind ih fun _ => .pure _) ih

theorem dropSwappedOut_tidies (targets : List Int) {queue : List SeqId} (ids : List SeqId) :
    ∀ s, s.Housed config .nobody → s.preempted = queue → (∀ x ∈ ids, x ∈ queue) →
      (dropSwappedOut targets ids).Yields s (fun _ => Housed config .nobody)
        fun _ => Housed config .nobody := by
  induction ids with
  | nil => exact fun _ housed _ _ => housed
  | cons id rest ih =>
      intro s housed same among
      have blind : ∀ (s : Scheduler) c, s.preempted = queue →
          ({ s with cache := c } : Scheduler).preempted = queue := fun _ _ same => same
      have others : ∀ x ∈ rest, x ∈ queue := fun x member => among x (List.mem_cons_of_mem id member)
      rw [dropSwappedOut, Action.yields_bind, Action.yields_get]
      dsimp only
      split
      · have waits : id ∈ s.preempted := same ▸ among id List.mem_cons_self
        have idle : id ∉ s.running := by
          have distinct := (List.nodup_append.mp (List.nodup_append.mp housed.distinct).2.1).2.1
          exact fun runs => (List.nodup_append.mp distinct).2.2 id waits id runs rfl
        have knows := housed.knows id (by simp [lodged, waits])
        rw [Action.yields_bind]
        refine (Action.Yields.and (Action.yields_within.mpr (housed.release_yields knows idle))
          (onCache_elsewhere blind s same)).weaken ?_ fun _ _ => And.left
        rintro _ t ⟨housed', same'⟩
        refine (recompute_tidies id).andThen (onCache_elsewhere blind) housed' same' fun _ u housed same => ?_
        exact (report_tidies _ _).andThen (onCache_elsewhere blind) housed same fun _ v housed same =>
          ih v housed same others
      · exact ih s housed same others

theorem dropSwappedIn_tidies (targets : List Int) (ids : List SeqId) :
    Tidies config .nobody (dropSwappedIn targets ids) .nobody := by
  induction ids with
  | nil => exact .pure _
  | cons id rest ih =>
      exact .bind (look_tidies id) fun _ => .ite (.bind (stopRunning_tidies id) fun _ =>
        .bind (recompute_tidies id) fun _ => .bind (release_tidies id).of_held fun _ =>
        .bind (edit_tidies id (fun _ => ⟨rfl, rfl⟩) fun _ few => few) fun _ =>
        .bind (.modify fun _ => Housed.joins_preempted) fun _ => .bind (report_tidies _ _) fun _ => ih) ih

theorem failBatch_tidies (b : Batch) (text : String) :
    Tidies config .nobody (failBatch b text) .nobody := by
  refine .bind (report_tidies _ _) fun _ => .bind (failEach_tidies _ _) fun _ => .bind ?_ fun _ => .pure _
  refine .get_bind fun s housed => ?_
  rw [Action.yields_bind]
  exact (dropSwappedOut_tidies _ _ s housed rfl fun _ member => member).weaken
    (fun _ t housed => Action.yields_bind.mpr (dropSwappedIn_tidies _ _ t housed)) fun _ _ holds => holds

theorem settle_tidies (p : Prepared) (e : Execution) : Tidies config .nobody (settle p e) .nobody := by
  have recorded : Tidies config .nobody (keepRecords e.records) .nobody := .onCache fun _ housed =>
    housed.attended ((Cache.Attended.refl housed.tidy []).reported _)
  refine recorded.bind fun _ => ?_
  split
  · exact .ite (failBatch_tidies _ _) (commitEach_tidies _)
  · exact failBatch_tidies _ _

theorem conclude_tidies (p : Prepared) (outputs : List Output) :
    Tidies config .nobody (conclude p outputs) .nobody := by
  refine .bind (note_tidies ?_) fun _ => .pure _
  exact fun _ => ⟨rfl, rfl, rfl, rfl, rfl⟩

/-- A sequence that is constructed stands in no queue. -/
theorem create_tidies (housed : s.Housed config .nobody) (draft : Draft) :
    (create draft).Yields s
      (fun _ t => t.cache.Uniform config.blockSize → t.Housed config .nobody)
      fun _ t => t.cache.Uniform config.blockSize → t.Housed config .nobody := by
  refine Action.yields_within.mpr ((Cache.create_tidies housed.tidy draft).weaken ?_ ?_)
  · rintro id c ⟨q, created, tidy⟩ uniform
    have size : q.blockSize = s.cache.blockSize := by
      rw [housed.blockSize, ← created.self]
      exact uniform id ((created.knows_iff id).mpr (Or.inr rfl))
    have same : ∀ x ∈ s.lodged .nobody, c.sequence x = s.cache.sequence x := fun x member =>
      created.others x (housed.knows x member)
    refine ⟨tidy size, created.blockSize.trans housed.blockSize, created.sharing.trans housed.sharing,
      housed.distinct, fun x member => (created.knows_iff x).mpr (Or.inl (housed.knows x member)),
      fun x member => ?_, fun x runs => ?_⟩
    · exact (congrArg (fun q : Sequence => s.requests.get? q.requestId) (same x member)).trans
        (housed.registered x member)
    · show (c.sequence x).table ≠ []
      rw [same x (List.mem_append_right _ (List.mem_append_right _ (List.mem_append_right _ runs)))]
      exact housed.filled x runs
  · rintro _ _ rfl -
    exact housed

theorem start_housed (config : Config) (threshold : Int) :
    (start config threshold).Housed config .nobody := by
  have sound := start_sound config threshold
  have nobody : ∀ {p : SeqId → Prop}, ∀ x, (start config threshold).cache.Knows x → p x := fun x knows =>
    (Nat.not_lt_zero x knows).elim
  refine ⟨⟨⟨sound.balanced.device, sound.balanced.host, fun h b found => ?_, List.nodup_nil, ?_, ?_, ?_⟩,
    sound.labelled, nobody, nobody⟩, rfl, rfl, List.nodup_nil, ?_, ?_, ?_⟩
  · cases found
  all_goals exact fun _ member => (List.not_mem_nil member).elim

namespace Driven

theorem onScheduler_tidies {act : Action Scheduler α} (tidies : Tidies config .nobody act .nobody) :
    (onScheduler act : Action (Driven ω) α).Preserves fun d => d.scheduler.Housed config .nobody :=
  .within tidies (fun _ housed => housed) fun _ _ _ housed => housed

/-- After an iteration everybody is in place, whatever the device answers and wherever a fault is met. -/
theorem step_tidies (device : Option (Device ω)) :
    (step device).Preserves fun d => d.scheduler.Housed config .nobody :=
  .bind (.demand _ _) fun _ => .bind (onScheduler_tidies prepare_tidies) fun p => .ite
    (.bind (.get_bind fun _ housed => housed) fun _ =>
      onScheduler_tidies (.bind (settle_tidies p _) (conclude_tidies p)))
    (onScheduler_tidies (conclude_tidies p []))

/-- In every state that is reached everybody is in place, if all sequences have blocks of the size that
    is configured. -/
theorem Reached.housed {d : Driven ω} (reached : Reached config d)
    (uniform : d.scheduler.cache.Uniform config.blockSize) : d.scheduler.Housed config .nobody := by
  suffices all : ∃ kept, Numbered kept ∧ d.scheduler.Indexed kept ∧
      ((∀ o ∈ kept, o.blockSize = config.blockSize) → d.scheduler.Housed config .nobody) by
    obtain ⟨kept, -, indexed, housed⟩ := all
    exact housed ((Cache.uniform_iff indexed.origins _).mp uniform)
  clear uniform
  induction reached with
  | start threshold w =>
      have started : Reached config ⟨Scheduler.start config threshold, w⟩ := .start threshold w
      obtain ⟨kept, numbered, indexed⟩ := started.indexed
      exact ⟨kept, numbered, indexed, fun _ => start_housed config threshold⟩
  | create _ draft ih =>
      obtain ⟨kept, numbered, indexed, housed⟩ := ih
      obtain ⟨kept', longer, numbered', indexed'⟩ := create_indexed numbered indexed draft
      refine ⟨kept', numbered', indexed', fun uniform => ?_⟩
      exact (create_tidies (housed fun o old => uniform o (longer.subset old)) draft).after
        ((Cache.uniform_iff indexed'.origins _).mpr uniform)
  | add _ knows ih =>
      obtain ⟨kept, numbered, indexed, housed⟩ := ih
      refine ⟨kept, numbered, add_indexed indexed ?_, fun uniform => (add_tidies (housed uniform) knows).after⟩
      rw [← indexed.origins, Cache.origins, List.length_map]
      exact knows
  | abort _ name ih =>
      obtain ⟨kept, numbered, indexed, housed⟩ := ih
      exact ⟨kept, numbered, ((abort_tracks (by simp)).preserves.after indexed.beside).left,
        fun uniform => (abort_tidies name _ (housed uniform)).after⟩
  | releaseAll _ reason ih =>
      obtain ⟨kept, numbered, indexed, housed⟩ := ih
      exact ⟨kept, numbered, releaseAll_indexed indexed reason,
        fun uniform => (releaseAll_tidies reason _ (housed uniform)).after⟩
  | takePending _ ih =>
      obtain ⟨kept, numbered, indexed, housed⟩ := ih
      exact ⟨kept, numbered, ⟨indexed.origins, indexed.inOrder, indexed.named⟩,
        fun uniform => (takePending_tidies _ (housed uniform)).after⟩
  | step _ device ih =>
      obtain ⟨kept, numbered, indexed, housed⟩ := ih
      have preserved := (step_tracks numbered device).preserves.after ⟨indexed.beside, rfl⟩
      exact ⟨kept, numbered, preserved.1.left, fun uniform => (step_tidies device).after (housed uniform)⟩

end Driven

end Scheduler

end PagedServing
