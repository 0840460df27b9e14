import PagedServing.Proofs.Scheduler.Intake
import PagedServing.Proofs.Scheduler.Likeness
import PagedServing.Proofs.Scheduler.Runs

/-! # The order of submission does not matter

Between two iterations some sequences are taken in, and some requests are given up. Whatever the
order in which the sequences are taken in, and whatever is given up in between: the iterations that
follow plan the same batches and hand back the same results.

This holds of every state that can be reached, also by operations that met a fault half way, and on
devices that answer whatever they like.
-/

namespace PagedServing

theorem Store.update_same {store : Store} {id : SeqId} {f : Sequence → Sequence}
    (same : f (store.get id) = store.get id) : store.update id f = store := by
  have entries : store.entries.modify id f = store.entries := by
    refine List.ext_getElem? fun n => ?_
    rw [List.getElem?_modify]
    by_cases own : id = n
    · subst own
      rw [Store.get, List.getD_eq_getElem?_getD] at same
      cases found : store.entries[id]? with
      | none => rfl
      | some q => simpa [found] using same
    · simp [own]
  rw [update, entries]

namespace Cache

variable {x id : SeqId} {q : Sequence}

theorem edit_spares (other : x ≠ id) (f : Sequence → Sequence) :
    (edit id f).Preserves fun c => c.sequence x = q :=
  .modify fun _ holds => (Store.get_update_of_ne f other).trans holds

theorem publish_spares (id : SeqId) : (publish id).Preserves fun c => c.sequence x = q := by
  have block : ∀ before index, (publishBlock id before index).Preserves fun c => c.sequence x = q :=
    fun before index => .bind (.bind .get fun _ => .pure _) fun _ => .bind (.ofExcept _) fun _ =>
      .bind (.ofExcept _) fun _ => .bind .get fun _ => .bind (.demand _ _) fun _ =>
      .bind (.demand _ _) fun _ => .bind (.demand _ _) fun _ =>
      .ite (.bind (.elsewhere fun _ _ holds => holds) fun _ => .pure _) (.pure _)
  exact .bind .get fun _ => .ite (.map (.foldlM block _ _)) (.pure _)

theorem release_spares (other : x ≠ id) : (release id).Preserves fun c => c.sequence x = q := by
  have host : ∀ act : Action Pool Unit, (onHost act).Preserves fun c => c.sequence x = q := by
    intro act c holds
    cases host : c.host with
    | none => simpa [Action.Yields, onHost, host] using holds
    | some p =>
        simp only [Action.Yields, onHost, host, Action.within]
        cases act p <;> exact holds
  exact .bind .get fun _ => .ite
    (.bind (host _) fun _ => .bind (.modify fun _ holds => holds) fun _ => edit_spares other _)
    (.bind (publish_spares id) fun _ => .bind (.bind .get fun _ => .pure _) fun _ =>
      .bind (.elsewhere fun _ _ holds => holds) fun _ => edit_spares other _)

end Cache

namespace Scheduler

variable {ω : Type} {config : Config} {kept : List Origin} {ids : List SeqId} {s t : Scheduler}
  {x id : SeqId}

/-- Nothing happened to a sequence that is not registered. -/
structure Spares (s : Scheduler) (x : SeqId) (name : String) (t : Scheduler) : Prop where
  sequence : t.sequence x = s.sequence x
  config : t.config = s.config
  free : t.requests.get? name = none

theorem onCache_spares {α : Type} {name : String} {act : Action Cache α}
    (spares : act.Preserves fun c => c.sequence x = s.sequence x) :
    (onCache act).Preserves (s.Spares x name) :=
  .within spares (fun _ spared => spared.sequence)
    fun _ _ spared same => ⟨same, spared.config, spared.free⟩

theorem look_spares {name : String} : (look id).Preserves (s.Spares x name) :=
  onCache_spares (.bind .get fun _ => .pure _)

theorem edit_spares {name : String} (other : x ≠ id) (f : Sequence → Sequence) :
    (edit id f).Preserves (s.Spares x name) :=
  onCache_spares (Cache.edit_spares other f)

theorem report_spares {name : String} (severity : Logging.Severity) (message : String) :
    (report severity message).Preserves (s.Spares x name) :=
  onCache_spares (.modify fun _ holds => holds)

theorem finish_spares {name : String} (other : x ≠ id) (reason : FinishReason) (error : Option String) :
    (finish id reason error).Preserves (s.Spares x name) := by
  have forgets : ∀ q : Sequence, Action.Preserves (s.Spares x name) (modify fun state =>
      { state with requests := state.requests.erase q.requestId, ended := state.ended + 1 }) := by
    refine fun q => .modify fun t spared => ⟨spared.sequence, spared.config, ?_⟩
    rw [OrderedMap.get?_erase, spared.free]
    exact ite_self none
  refine .bind look_spares fun _ => .ite
    (.bind (onCache_spares (Cache.release_spares other)) fun _ => ?_) ?_
  all_goals exact (edit_spares other _).bind fun _ => look_spares.bind fun q => (forgets q).bind fun _ =>
    (report_spares _ _).bind fun _ => (edit_spares other _).bind fun _ => .pure _

theorem leaveQueue_spares {name : String} (id : SeqId) :
    (leaveQueue id).Preserves (s.Spares x name) := by
  refine .get_bind fun t spared => ?_
  have moved : ∀ waiting running preempted,
      s.Spares x name { t with waiting, running, preempted } := fun _ _ _ =>
    ⟨spared.sequence, spared.config, spared.free⟩
  have leaves : ∀ (queue : List SeqId) (put : List SeqId → Scheduler),
      (∀ rest, s.Spares x name (put rest)) → Action.Yields
        (Action.ofExcept (without id queue) >>= fun rest => set (put rest) : Action Scheduler Unit) t
        (fun _ => s.Spares x name) fun _ => s.Spares x name := fun queue put puts =>
    Action.yields_bind.mpr (Action.yields_ofExcept.mpr ⟨fun rest _ => puts rest, fun _ _ => spared⟩)
  dsimp only
  split
  · exact leaves _ _ fun rest => moved rest t.running t.preempted
  · exact leaves _ _ fun rest => moved t.waiting rest t.preempted
  · exact leaves _ _ fun rest => moved t.waiting t.running rest
  · exact spared
  · exact spared

theorem abort_spares (indexed : s.Indexed kept)
    (free : s.requests.get? (originAt kept x).requestId = none) (name : String) :
    s.Spares x (originAt kept x).requestId ((abort name).after s) := by
  have start : s.Spares x (originAt kept x).requestId s := ⟨rfl, rfl, free⟩
  refine Action.Yields.after ?_
  rw [abort, Action.yields_bind, Action.yields_get]
  cases found : s.requests.get? name with
  | none => exact start
  | some id =>
      have other : x ≠ id := by
        rintro rfl
        rw [(indexed.named name x found).2, found] at free
        cases free
      refine Action.Preserves.bind (leaveQueue_spares id) (fun _ => .bind (finish_spares other _ _)
        fun _ => .bind (.modify fun _ spared => ?_) fun _ => .bind (report_spares _ _) fun _ => .pure _)
        s start
      exact ⟨spared.sequence, spared.config, spared.free⟩

/-- A scheduler before a sequence that is not registered is taken in. -/
structure Awaits (config : Config) (kept : List Origin) (s : Scheduler) (id : SeqId) : Prop where
  config : s.config = config
  known : id < kept.length
  status : (s.cache.sequence id).status = .waiting
  free : s.requests.get? (originAt kept id).requestId = none

/-- Whether the prompt of a sequence leaves room for a generated token. -/
def admits (config : Config) (kept : List Origin) (id : SeqId) : Bool :=
  (originAt kept id).prompt.length < config.maxLength

theorem Indexed.taken (indexed : s.Indexed kept) (known : id < kept.length) :
    ({ s with
        waiting := s.queued id s.waiting
        requests := s.requests.insert (originAt kept id).requestId id } : Scheduler).Indexed kept := by
  refine ⟨indexed.origins, indexed.queued indexed.inOrder known, fun name other found => ?_⟩
  rw [OrderedMap.get?_insert] at found
  split at found
  · rename_i own
    obtain rfl := Option.some.inj found
    exact ⟨known, own.symm⟩
  · exact indexed.named name other found

theorem checkAdmission_iff (indexed : s.Indexed kept)
    (free : s.requests.get? (originAt kept id).requestId = none) :
    s.checkAdmission (s.cache.sequence id) = .ok () ↔ admits s.config kept id = true := by
  have untaken : s.requests.contains (s.cache.sequence id).requestId = false :=
    OrderedMap.contains_eq_false_iff.mpr (indexed.requestId id ▸ free)
  have prompt : (s.cache.sequence id).prompt = (originAt kept id).prompt :=
    congrArg Origin.prompt (indexed.origin id)
  simp [checkAdmission, untaken, checkCapacity, prompt, admits]

theorem add_takes (verdict : s.checkAdmission (s.cache.sequence id) = .ok ()) :
    (add id).Returns s fun _ t =>
      let waits : Scheduler := { s with cache := { s.cache with
        sequences := s.cache.sequences.update id fun q => { q with status := .waiting } } }
      t = { waits with
        waiting := waits.queued id s.waiting
        requests := s.requests.insert (s.sequence id).requestId id } := by
  have same : s.sequence id = s.cache.sequence id := rfl
  simp only [add, Action.returns_bind, Action.returns_get, same, verdict, edit, returns_onCache,
    Cache.edit, Action.returns_modify]

theorem Beside.reported (beside : s.Beside kept ids t) (journal : Logging.Journal) :
    s.Beside kept ids { t with cache := { t.cache with journal } } := by
  obtain ⟨⟨w, r, j, rfl⟩, left, right, waiting, requests, apart⟩ := beside
  exact ⟨⟨w, r, journal, rfl⟩, left, right, waiting, requests, apart⟩

theorem Beside.joined (beside : s.Beside kept ids t) (awaits : s.Awaits config kept id)
    (other : ∀ x ∈ ids, (originAt kept x).requestId ≠ (originAt kept id).requestId) :
    s.Beside kept (id :: ids) { t with
      waiting := t.queued id t.waiting
      requests := t.requests.insert (originAt kept id).requestId id } := by
  refine ⟨?_, beside.left, beside.indexed.queued beside.right awaits.known, ?_, fun name x => ?_, ?_⟩
  · obtain ⟨w, r, j, rfl⟩ := beside.same
    exact ⟨_, _, j, rfl⟩
  · exact (queued_perm t id t.waiting).trans (beside.waiting.cons id)
  · rw [OrderedMap.get?_insert]
    split
    · rename_i own
      rw [own, awaits.free, Option.some.injEq]
      simp only [reduceCtorEq, false_or, List.mem_cons]
      constructor
      · rintro rfl
        exact ⟨Or.inl rfl, rfl⟩
      · rintro ⟨rfl | member, named⟩
        · rfl
        · exact (other x member named).elim
    · rename_i foreign
      rw [beside.requests, List.mem_cons]
      refine or_congr_right ⟨And.imp_left Or.inr, ?_⟩
      rintro ⟨rfl | member, named⟩
      · exact (foreign named.symm).elim
      · exact ⟨member, named⟩
  · intro x member
    rcases List.mem_cons.mp member with rfl | member
    · exact ⟨awaits.known, awaits.free⟩
    · exact beside.apart x member

/-- A sequence is taken in beside others. -/
theorem Beside.added (beside : s.Beside kept ids t) (awaits : s.Awaits config kept id)
    (other : ∀ x ∈ ids, (originAt kept x).requestId ≠ (originAt kept id).requestId) :
    s.Beside kept (if admits config kept id then id :: ids else ids) ((add id).after t) := by
  have indexed := beside.indexed
  have free : t.requests.get? (originAt kept id).requestId = none :=
    (beside.get?_eq other).trans awaits.free
  have configured : t.config = config := by
    obtain ⟨w, r, j, rfl⟩ := beside.same
    exact awaits.config
  have verdict := checkAdmission_iff indexed free
  rw [configured] at verdict
  cases checked : t.checkAdmission (t.cache.sequence id) with
  | error fault =>
      rw [checked] at verdict
      rw [if_neg (by simpa using verdict)]
      obtain ⟨_, journal, after⟩ := (add_refuses checked).after
      rw [after]
      exact beside.reported journal
  | ok _ =>
      rw [if_pos (verdict.mp checked)]
      obtain ⟨_, after⟩ := (add_takes checked).after
      have waits : t.cache.sequences.update id (fun q => { q with status := .waiting }) =
          t.cache.sequences := by
        refine Store.update_same ?_
        have status : (t.cache.sequence id).status = .waiting := by
          obtain ⟨w, r, j, rfl⟩ := beside.same
          exact awaits.status
        rw [← status]
        rfl
      rw [after, waits, beside.indexed.requestId id]
      exact beside.joined awaits other

/-- What is submitted between two iterations. -/
inductive Submission where
  /-- A sequence is to be served. -/
  | add (id : SeqId)
  /-- A request is given up. -/
  | abort (name : String)

namespace Submission

/-- The state after a submission, whether it is refused or not. -/
def after (s : Scheduler) : Submission → Scheduler
  | add id => (Scheduler.add id).after s
  | abort name => (Scheduler.abort name).after s

/-- The sequences that are to be served, in the order of their submission. -/
def added : List Submission → List SeqId
  | [] => []
  | add id :: rest => id :: added rest
  | abort _ :: rest => added rest

/-- The requests that are given up, one after the other. -/
def aborted : List Submission → List String
  | [] => []
  | add _ :: rest => aborted rest
  | abort name :: rest => name :: aborted rest

end Submission

open Submission (added aborted)

/-- The state after some submissions. -/
def submit (s : Scheduler) (submissions : List Submission) : Scheduler :=
  submissions.foldl Submission.after s

/-- The state after some requests were given up. -/
def abortAll (s : Scheduler) (names : List String) : Scheduler :=
  names.foldl (fun s name => (abort name).after s) s

theorem Awaits.spared (awaits : s.Awaits config kept id)
    (spares : s.Spares id (originAt kept id).requestId t) : t.Awaits config kept id :=
  ⟨spares.config.trans awaits.config, awaits.known,
    (congrArg Sequence.status spares.sequence).trans awaits.status, spares.free⟩

theorem submit_beside (submissions : List Submission) (beside : s.Beside kept ids t)
    (awaits : ∀ id ∈ added submissions, s.Awaits config kept id)
    (distinct : ((added submissions ++ ids).map fun id => (originAt kept id).requestId).Nodup)
    (others : ∀ id ∈ added submissions ++ ids, (originAt kept id).requestId ∉ aborted submissions) :
    (s.abortAll (aborted submissions)).Beside kept
      (((added submissions).filter (admits config kept)).reverse ++ ids) (t.submit submissions) := by
  induction submissions generalizing s t ids with
  | nil => exact beside
  | cons submission rest ih =>
      cases submission with
      | add id =>
          obtain ⟨new, distinct'⟩ := List.nodup_cons.mp distinct
          have apart : ∀ x ∈ ids, (originAt kept x).requestId ≠ (originAt kept id).requestId := by
            refine fun x member same => new (List.mem_map.mpr ⟨x, ?_, same⟩)
            exact List.mem_append_right _ member
          have joined := beside.added (awaits id List.mem_cons_self) apart
          have awaits' := fun x member => awaits x (List.mem_cons_of_mem id member)
          by_cases fits : admits config kept id = true
          · rw [if_pos fits] at joined
            rw [added, List.filter_cons_of_pos fits, List.reverse_cons, List.append_assoc]
            exact ih joined awaits' ((List.perm_middle.map _).nodup_iff.mpr distinct)
              fun x member => others x (List.perm_middle.mem_iff.mp member)
          · rw [if_neg fits] at joined
            rw [added, List.filter_cons_of_neg fits]
            exact ih joined awaits' distinct' fun x member => others x (List.mem_cons_of_mem id member)
      | abort name =>
          have far : ∀ x ∈ ids, (originAt kept x).requestId ≠ name := fun x member same =>
            others x (List.mem_append_right _ member) (same ▸ List.mem_cons_self)
          have spares := fun id member => (awaits id member).spared
            (abort_spares beside.left (awaits id member).free name)
          exact ih ((abort_tracks far).after beside) spares distinct fun x member among =>
            others x member (List.mem_cons_of_mem name among)

/-- Two schedulers that have taken the same sequences in go on alike. -/
theorem Beside.meet {ids' : List SeqId} {t' : Scheduler} (beside : s.Beside kept ids t)
    (beside' : s.Beside kept ids' t') (perm : ids.Perm ids') : t.Beside kept [] t' where
  same := by
    obtain ⟨w, r, j, rfl⟩ := beside.same
    obtain ⟨w', r', j', rfl⟩ := beside'.same
    exact ⟨w', r', j', rfl⟩
  left := beside.indexed
  right := beside'.right
  waiting := beside'.waiting.trans ((perm.symm.append_right _).trans beside.waiting.symm)
  requests name id := by
    rw [beside.requests, beside'.requests, perm.mem_iff]
    simp
  apart := by simp

theorem Indexed.append {new : Origin} (indexed : s.Indexed kept) {c : Cache}
    (origins : c.origins = kept ++ [new]) :
    ({ s with cache := c } : Scheduler).Indexed (kept ++ [new]) where
  origins := origins
  inOrder := indexed.inOrder.append
  named name id found := by
    obtain ⟨known, named⟩ := indexed.named name id found
    rw [List.length_append, originAt_append known]
    exact ⟨Nat.lt_add_right _ known, named⟩

theorem origins_created {store store' : Store} {draft : Draft} {q : Sequence}
    (made : store.create draft = .ok (store', q)) : q.id = store.entries.length ∧
      store'.entries.map Sequence.origin = store.entries.map Sequence.origin ++ [q.origin] := by
  unfold Store.create at made
  split at made
  · cases made
  · split at made
    · cases made
    · simp only [Except.ok.injEq, Prod.mk.injEq] at made
      obtain ⟨rfl, rfl⟩ := made
      exact ⟨rfl, List.map_append⟩

theorem create_indexed (numbered : Numbered kept) (indexed : s.Indexed kept) (draft : Draft) :
    ∃ kept', kept <+: kept' ∧ Numbered kept' ∧ ((create draft).after s).Indexed kept' := by
  cases made : s.cache.sequences.create draft with
  | error fault =>
      have after : (create draft).after s = s := by
        simp only [Action.after, create, onCache, Action.within, Cache.create?, bind, EStateM.bind,
          Action.run_get, made]
        rfl
      rw [after]
      exact ⟨kept, List.prefix_rfl, numbered, indexed⟩
  | ok result =>
      obtain ⟨store, q⟩ := result
      obtain ⟨number, origins⟩ := origins_created made
      have after : (create draft).after s = { s with cache := { s.cache with sequences := store } } := by
        simp only [Action.after, create, onCache, Action.within, Cache.create?, bind, EStateM.bind,
          Action.run_get, made]
        rfl
      have length : s.cache.sequences.entries.length = kept.length := by
        rw [← indexed.origins, Cache.origins, List.length_map]
      have next : q.origin.id = kept.length := number.trans length
      rw [after]
      refine ⟨_, List.prefix_append _ _, numbered.append next, indexed.append ?_⟩
      rw [← indexed.origins]
      exact origins

theorem add_indexed (indexed : s.Indexed kept) (known : id < kept.length) :
    ((add id).after s).Indexed kept := by
  cases checked : s.checkAdmission (s.cache.sequence id) with
  | error fault =>
      obtain ⟨_, journal, after⟩ := (add_refuses checked).after
      rw [after]
      exact ⟨indexed.origins, indexed.inOrder, indexed.named⟩
  | ok _ =>
      obtain ⟨_, after⟩ := (add_takes checked).after
      have waits : ({ s with cache := { s.cache with
          sequences := s.cache.sequences.update id fun q => { q with status := .waiting } } } :
          Scheduler).Indexed kept :=
        ⟨(Cache.origins_update rfl).trans indexed.origins, indexed.inOrder, indexed.named⟩
      rw [after, indexed.requestId id]
      exact waits.taken known

theorem releaseAll_indexed (indexed : s.Indexed kept) (reason : FinishReason) :
    ((releaseAll reason).after s).Indexed kept := by
  have each : ∀ sequences, (finishEach reason sequences).Tracks (Beside kept []) := by
    intro sequences
    induction sequences with
    | nil => exact .pure _
    | cons id rest ih =>
        exact .bind (leaveQueue_tracks List.not_mem_nil) fun _ => .bind (finish_tracks (by simp) _ _)
          fun _ => .bind ih fun _ => .pure _
  have preserves : (releaseAll reason).Preserves fun s => s.Beside kept [] s :=
    .bind .get fun s => .bind (each s.requests.values).preserves fun outputs =>
      .bind (.modify fun s beside => beside.moved _ _ _ _ _ _ _ _) fun _ => .pure _
  exact (preserves.after indexed.beside).left

namespace Driven

/-- The states that are reached from the start, whatever is done, and whether it is refused or meets a
    fault half way. -/
inductive Reached (config : Config) : Driven ω → Prop where
  | start (threshold : Int) (w : ω) : Reached config ⟨Scheduler.start config threshold, w⟩
  | create {d : Driven ω} (before : Reached config d) (draft : Draft) :
      Reached config { d with scheduler := (Scheduler.create draft).after d.scheduler }
  | add {d : Driven ω} (before : Reached config d) {id : SeqId} (knows : d.scheduler.cache.Knows id) :
      Reached config { d with scheduler := (Scheduler.add id).after d.scheduler }
  | abort {d : Driven ω} (before : Reached config d) (name : String) :
      Reached config { d with scheduler := (Scheduler.abort name).after d.scheduler }
  | releaseAll {d : Driven ω} (before : Reached config d) (reason : FinishReason) :
      Reached config { d with scheduler := (Scheduler.releaseAll reason).after d.scheduler }
  | takePending {d : Driven ω} (before : Reached config d) :
      Reached config { d with scheduler := Scheduler.takePending.after d.scheduler }
  | step {d : Driven ω} (before : Reached config d) (device : Option (Device ω)) :
      Reached config ((step device).after d)

theorem Reached.indexed {d : Driven ω} (reached : Reached config d) :
    ∃ kept, Numbered kept ∧ d.scheduler.Indexed kept := by
  induction reached with
  | start threshold w =>
      refine ⟨[], fun id known => (Nat.not_lt_zero id known).elim, rfl, ⟨?_, List.Pairwise.nil⟩, ?_⟩
      · exact fun _ member => (List.not_mem_nil member).elim
      · exact fun _ _ found => nomatch found
  | create _ draft ih =>
      obtain ⟨kept, numbered, indexed⟩ := ih
      obtain ⟨kept', -, indexed'⟩ := create_indexed numbered indexed draft
      exact ⟨kept', indexed'⟩
  | add _ knows ih =>
      obtain ⟨kept, numbered, indexed⟩ := ih
      refine ⟨kept, numbered, add_indexed indexed ?_⟩
      rw [← indexed.origins, Cache.origins, List.length_map]
      exact knows
  | abort _ name ih =>
      obtain ⟨kept, numbered, indexed⟩ := ih
      exact ⟨kept, numbered, ((abort_tracks (by simp)).preserves.after indexed.beside).left⟩
  | releaseAll _ reason ih =>
      obtain ⟨kept, numbered, indexed⟩ := ih
      exact ⟨kept, numbered, releaseAll_indexed indexed reason⟩
  | takePending _ ih =>
      obtain ⟨kept, numbered, indexed⟩ := ih
      exact ⟨kept, numbered, indexed.origins, indexed.inOrder, indexed.named⟩
  | step _ device ih =>
      obtain ⟨kept, numbered, indexed⟩ := ih
      have preserved := (step_tracks numbered device).preserves.after ⟨indexed.beside, rfl⟩
      exact ⟨kept, numbered, preserved.1.left⟩

/-- What can be seen of an iteration: the batch that was planned, and the result that was handed back. -/
structure Sight where
  planned : Except Fault Prepared
  result : Except Fault StepResult

/-- What can be seen of one iteration after the other, each on a device of its own. -/
def sights : List (Device ω) → Driven ω → List Sight
  | [], _ => []
  | device :: rest, d =>
    ⟨prepare.answer d.scheduler, (step (some device)).answer d⟩ ::
      sights rest ((step (some device)).after d)

theorem Beside.sights {d d' : Driven ω} (numbered : Numbered kept) (beside : d.Beside kept d')
    (devices : List (Device ω)) : sights devices d' = sights devices d := by
  induction devices generalizing d d' with
  | nil => rfl
  | cons device rest ih =>
      have tracks := step_tracks (ω := ω) numbered (some device)
      rw [Driven.sights, Driven.sights, ih (tracks.after beside), tracks.answer beside,
        (prepare_tracks numbered).answer beside.1]

end Driven

/-- Some sequences that were constructed and whose requests are not in flight are taken in, in
    whatever order, and other requests are given up in between, in the same order. Then the same is
    seen of all iterations that follow. -/
theorem submissions_commute {d : Driven ω} (reached : Driven.Reached config d)
    (submissions submissions' : List Submission)
    (fresh : ∀ id ∈ added submissions, d.scheduler.Fresh id)
    (free : ∀ id ∈ added submissions,
      d.scheduler.requests.get? (d.scheduler.sequence id).requestId = none)
    (distinct : ((added submissions).map fun id => (d.scheduler.sequence id).requestId).Nodup)
    (others : ∀ id ∈ added submissions,
      (d.scheduler.sequence id).requestId ∉ aborted submissions)
    (permuted : (added submissions').Perm (added submissions))
    (same : aborted submissions' = aborted submissions) (devices : List (Device ω)) :
    Driven.sights devices { d with scheduler := d.scheduler.submit submissions' } =
      Driven.sights devices { d with scheduler := d.scheduler.submit submissions } := by
  obtain ⟨kept, numbered, indexed⟩ := reached.indexed
  simp only [indexed.requestId] at free distinct others
  have awaits : ∀ id ∈ added submissions,
      d.scheduler.Awaits d.scheduler.config kept id := by
    intro id member
    refine ⟨rfl, ?_, (fresh id member).status, free id member⟩
    rw [← indexed.origins, Cache.origins, List.length_map]
    exact (fresh id member).knows
  have first := submit_beside submissions indexed.beside awaits (by simpa using distinct)
    (by simpa using others)
  have second := submit_beside submissions' indexed.beside
    (fun id member => awaits id (permuted.mem_iff.mp member))
    (by simpa using (permuted.map _).nodup_iff.mpr distinct)
    (by simpa [permuted.mem_iff, same] using others)
  rw [same] at second
  have perm : (((added submissions).filter (admits d.scheduler.config kept)).reverse ++ []).Perm
      (((added submissions').filter (admits d.scheduler.config kept)).reverse ++ []) := by
    rw [List.append_nil, List.append_nil]
    exact (List.reverse_perm _).trans ((permuted.filter _).symm.trans (List.reverse_perm _).symm)
  have beside : Driven.Beside kept { d with scheduler := d.scheduler.submit submissions }
      { d with scheduler := d.scheduler.submit submissions' } := ⟨first.meet second perm, rfl⟩
  exact beside.sights numbered devices

/-- Two requests come in either order, and a running one is given up before or after the first of them.
    They are registered in different orders, and then served alike. -/
theorem submissions_commute_swapped : ∃ d : Driven Unit, Driven.Reached (smallConfig .swap true) d ∧
    let first := d.scheduler.submit [.add 1, .abort "a", .add 2]
    let second := d.scheduler.submit [.add 2, .add 1, .abort "a"]
    second.requests.keys ≠ first.requests.keys ∧
      Driven.sights [sevens, sevens, sevens] { d with scheduler := second } =
        Driven.sights [sevens, sevens, sevens] { d with scheduler := first } := by
  have started : Driven.Reached (smallConfig .swap true) (smallStart .swap true) := .start 20 ()
  have constructed := started.create { prompt := [5, 6], blockSize := 1, requestId := some "a" }
  have taken := constructed.add (by decide +kernel : Cache.Knows _ 0)
  have running := taken.step (some sevens)
  have one := running.create { prompt := [1], blockSize := 1, requestId := some "b" }
  have both := one.create { prompt := [2, 3], blockSize := 1, requestId := some "c" }
  refine ⟨_, both, by decide +kernel, submissions_commute both [.add 1, .abort "a", .add 2]
    [.add 2, .add 1, .abort "a"] ?_ ?_ (by decide +kernel) (by decide +kernel)
    (List.Perm.swap 1 2 []) rfl _⟩
  · intro id member
    simp only [added, List.mem_cons, List.not_mem_nil, or_false] at member
    rcases member with rfl | rfl
    · exact ⟨by decide +kernel, by decide +kernel, by decide +kernel⟩
    · exact ⟨by decide +kernel, by decide +kernel, by decide +kernel⟩
  · decide +kernel

end Scheduler

end PagedServing
