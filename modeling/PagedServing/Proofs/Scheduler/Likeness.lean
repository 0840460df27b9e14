import Mathlib.Data.Prod.Lex
import PagedServing.Proofs.Cache.Reports
import PagedServing.Proofs.OrderedMap
import PagedServing.Proofs.Queue
import PagedServing.Scheduler.Iteration

/-! # What an iteration does not look at

An iteration neither looks at what was reported, nor at the order in which requests were registered.
And who waits stands in the order of arrival, so that a queue is settled by who stands in it. Two
schedulers that differ in nothing else go on alike.

One of two schedulers may also have taken in some more sequences. As long as nobody looks at the
queue of the waiting ones, both go on alike too.
-/

namespace PagedServing

/-- Where a sequence stands in the order of arrival. -/
def Origin.rank (o : Origin) : ℚ ×ₗ ℕ :=
  toLex (o.arrival, o.id)

theorem Sequence.precedes_iff_rank {p q : Sequence} :
    p.precedes q = true ↔ p.origin.rank < q.origin.rank := by
  rw [precedes_iff, Origin.rank, Origin.rank, Prod.Lex.toLex_lt_toLex]
  rfl

/-- The origin of a sequence, by its number. -/
def originAt (kept : List Origin) (id : SeqId) : Origin :=
  kept.getD id (default : Sequence).origin

theorem Cache.origin_sequence (c : Cache) (id : SeqId) :
    (c.sequence id).origin = originAt c.origins id := by
  simp only [originAt, origins, sequence, Store.get, List.getD_eq_getElem?_getD, List.getElem?_map]
  cases c.sequences.entries[id]? <;> rfl

/-- Known sequences in the order of their arrival. -/
structure InOrder (kept : List Origin) (ids : List SeqId) : Prop where
  known : ∀ id ∈ ids, id < kept.length
  sorted : ids.Pairwise fun a b => (originAt kept a).rank ≤ (originAt kept b).rank

/-- Sequences are found under their own numbers. -/
def Numbered (kept : List Origin) : Prop :=
  ∀ id < kept.length, (originAt kept id).id = id

section Append

variable {kept : List Origin} {new : Origin} {id : SeqId} {ids : List SeqId}

theorem originAt_append (known : id < kept.length) :
    originAt (kept ++ [new]) id = originAt kept id := by
  simp [originAt, List.getD_eq_getElem?_getD, List.getElem?_append_left known]

theorem Numbered.append (numbered : Numbered kept) (number : new.id = kept.length) :
    Numbered (kept ++ [new]) := by
  intro id known
  rw [List.length_append, List.length_singleton, Nat.lt_succ_iff_lt_or_eq] at known
  rcases known with known | rfl
  · rw [originAt_append known, numbered id known]
  · simpa [originAt] using number

theorem InOrder.append (inOrder : InOrder kept ids) : InOrder (kept ++ [new]) ids where
  known id member := by
    rw [List.length_append]
    exact Nat.lt_add_right _ (inOrder.known id member)
  sorted := inOrder.sorted.imp_of_mem fun first second ordered => by
    rwa [originAt_append (inOrder.known _ first), originAt_append (inOrder.known _ second)]

end Append

namespace InOrder

variable {kept : List Origin} {ids ids' : List SeqId}

theorem sublist (inOrder : InOrder kept ids) (sub : ids'.Sublist ids) : InOrder kept ids' :=
  ⟨fun id member => inOrder.known id (sub.subset member), inOrder.sorted.sublist sub⟩

/-- A queue in order is settled by who stands in it. -/
theorem unique (numbered : Numbered kept) (inOrder : InOrder kept ids) (inOrder' : InOrder kept ids')
    (perm : ids.Perm ids') : ids = ids' := by
  refine perm.eq_of_pairwise (fun a b first second before after => ?_) inOrder.sorted inOrder'.sorted
  have ranks := before.antisymm after
  simp only [Origin.rank, EmbeddingLike.apply_eq_iff_eq, Prod.mk.injEq] at ranks
  rw [numbered a (inOrder.known a first), numbered b (inOrder'.known b second)] at ranks
  exact ranks.2

end InOrder

namespace Scheduler

open Logging (Journal)

variable {kept : List Origin} {ids : List SeqId} {s t : Scheduler} {id : SeqId}

/-- Requests that wait stand in the order of arrival, and registered ones under their names. -/
structure Indexed (kept : List Origin) (s : Scheduler) : Prop where
  origins : s.cache.origins = kept
  inOrder : InOrder kept s.waiting
  named : ∀ name id, s.requests.get? name = some id →
    id < kept.length ∧ (originAt kept id).requestId = name

/-- The second scheduler has taken in the sequences `ids` beside the first. Apart from that they
    differ in what was reported and in the order of registration. -/
structure Beside (kept : List Origin) (ids : List SeqId) (s t : Scheduler) : Prop where
  same : ∃ waiting requests journal,
    t = { s with waiting, requests, cache := { s.cache with journal } }
  left : s.Indexed kept
  right : InOrder kept t.waiting
  waiting : t.waiting.Perm (ids ++ s.waiting)
  requests : ∀ name id, t.requests.get? name = some id ↔
    s.requests.get? name = some id ∨ id ∈ ids ∧ (originAt kept id).requestId = name
  apart : ∀ id ∈ ids, id < kept.length ∧ s.requests.get? (originAt kept id).requestId = none

theorem Indexed.beside (indexed : s.Indexed kept) : s.Beside kept [] s where
  same := ⟨_, _, _, rfl⟩
  left := indexed
  right := indexed.inOrder
  waiting := List.Perm.refl _
  requests := by simp
  apart := by simp

theorem Indexed.origin (indexed : s.Indexed kept) (id : SeqId) :
    (s.sequence id).origin = originAt kept id :=
  indexed.origins ▸ s.cache.origin_sequence id

theorem Indexed.requestId (indexed : s.Indexed kept) (id : SeqId) :
    (s.sequence id).requestId = (originAt kept id).requestId :=
  congrArg Origin.requestId (indexed.origin id)

/-- A sequence takes its place in the queue. -/
theorem Indexed.queued (indexed : s.Indexed kept) {queue : List SeqId} (inOrder : InOrder kept queue)
    (known : id < kept.length) : InOrder kept (s.queued id queue) := by
  have before : ∀ x, s.precedes id x = true ↔ (originAt kept id).rank < (originAt kept x).rank :=
    fun x => by
      rw [← indexed.origin, ← indexed.origin]
      exact Sequence.precedes_iff_rank
  have mono : queue.Pairwise fun x y => s.precedes id x = true → s.precedes id y = true :=
    inOrder.sorted.imp fun ordered first =>
      (before _).mpr (((before _).mp first).trans_le ordered)
  obtain ⟨front, back, rfl, result, behind, ahead⟩ := Queue.insert_splits (s.precedes id) id mono
  obtain ⟨frontSorted, backSorted, across⟩ := List.pairwise_append.mp inOrder.sorted
  rw [Scheduler.queued, result]
  refine ⟨fun x member => ?_, List.pairwise_append.mpr ⟨frontSorted, ?_, ?_⟩⟩
  · rcases List.mem_append.mp member with first | last
    · exact inOrder.known x (List.mem_append_left _ first)
    · rcases List.mem_cons.mp last with rfl | last
      · exact known
      · exact inOrder.known x (List.mem_append_right _ last)
  · exact List.pairwise_cons.mpr
      ⟨fun x member => ((before x).mp (ahead x member)).le, backSorted⟩
  · intro x first y last
    rcases List.mem_cons.mp last with rfl | last
    · exact not_lt.mp fun less => by simpa [(before x).mpr less] using behind x first
    · exact across x first y last

namespace Beside

variable (beside : s.Beside kept ids t)
include beside

theorem indexed : t.Indexed kept := by
  refine ⟨?_, beside.right, fun name id found => ?_⟩
  · obtain ⟨w, r, j, rfl⟩ := beside.same
    exact beside.left.origins
  · rcases (beside.requests name id).mp found with found | ⟨member, named⟩
    · exact beside.left.named name id found
    · exact ⟨(beside.apart id member).1, named⟩

theorem outside {name : String} (found : s.requests.get? name = some id) : id ∉ ids := by
  intro member
  have none := (beside.apart id member).2
  rw [(beside.left.named name id found).2, found] at none
  cases none

theorem get?_eq {name : String} (far : ∀ id ∈ ids, (originAt kept id).requestId ≠ name) :
    t.requests.get? name = s.requests.get? name := by
  refine Option.ext fun id => (beside.requests name id).trans (or_iff_left ?_)
  rintro ⟨member, named⟩
  exact far id member named

theorem mem_waiting (outside : id ∉ ids) : id ∈ t.waiting ↔ id ∈ s.waiting := by
  rw [beside.waiting.mem_iff, List.mem_append]
  exact or_iff_right outside

theorem moved (running preempted : List SeqId) (pending : List Output)
    (iteration preemptedLast preemptions ended : Nat) (stats : Stats) :
    ({ s with running, preempted, pending, iteration, preemptedLast, preemptions, ended, stats } :
      Scheduler).Beside kept ids
      { t with running, preempted, pending, iteration, preemptedLast, preemptions, ended, stats } := by
  obtain ⟨⟨w, r, j, rfl⟩, ⟨origins, inOrder, named⟩, right, waiting, requests, apart⟩ := beside
  exact ⟨⟨w, r, j, rfl⟩, ⟨origins, inOrder, named⟩, right, waiting, requests, apart⟩

theorem acted {c c' : Cache} (like : Cache.Like kept c c') :
    ({ s with cache := c } : Scheduler).Beside kept ids { t with cache := c' } := by
  obtain ⟨⟨w, r, j, rfl⟩, ⟨-, inOrder, named⟩, right, waiting, requests, apart⟩ := beside
  obtain ⟨⟨journal, rfl⟩, origins⟩ := like
  exact ⟨⟨w, r, journal, rfl⟩, ⟨origins, inOrder, named⟩, right, waiting, requests, apart⟩

theorem like : Cache.Like kept s.cache t.cache := by
  obtain ⟨w, r, j, rfl⟩ := beside.same
  exact ⟨⟨j, rfl⟩, beside.left.origins⟩

/-- A request that both have registered is forgotten. -/
theorem forgotten {name : String} (far : ∀ id ∈ ids, (originAt kept id).requestId ≠ name) (ended : Nat) :
    ({ s with requests := s.requests.erase name, ended } : Scheduler).Beside kept ids
      { t with requests := t.requests.erase name, ended } := by
  obtain ⟨⟨w, r, j, rfl⟩, ⟨origins, inOrder, named⟩, right, waiting, requests, apart⟩ := beside
  refine ⟨⟨w, r.erase name, j, rfl⟩, ⟨origins, inOrder, fun other id found => ?_⟩, right, waiting,
    fun other id => ?_, fun id member => ⟨(apart id member).1, ?_⟩⟩
  · rw [OrderedMap.get?_erase] at found
    split at found
    · cases found
    · exact named other id found
  · simp only [OrderedMap.get?_erase]
    split
    · rename_i own
      subst own
      simp only [reduceCtorEq, false_or, false_iff]
      rintro ⟨member, named⟩
      exact far id member named
    · exact requests other id
  · rw [OrderedMap.get?_erase, if_neg (far id member)]
    exact (apart id member).2

/-- Who waits in both queues leaves them. -/
theorem left_waiting (outside : id ∉ ids) :
    ({ s with waiting := s.waiting.erase id } : Scheduler).Beside kept ids
      { t with waiting := t.waiting.erase id } := by
  obtain ⟨⟨w, r, j, rfl⟩, ⟨origins, inOrder, named⟩, right, waiting, requests, apart⟩ := beside
  refine ⟨⟨w.erase id, r, j, rfl⟩, ⟨origins, inOrder.sublist List.erase_sublist, named⟩,
    right.sublist List.erase_sublist, ?_, requests, apart⟩
  rw [← List.erase_append_right _ outside]
  exact waiting.erase id

end Beside

/-- The waiting sequences of both may be lined up in the same order. -/
theorem Beside.waited (beside : s.Beside kept [] t) {rest : List SeqId} (inOrder : InOrder kept rest) :
    ({ s with waiting := rest } : Scheduler).Beside kept [] { t with waiting := rest } := by
  obtain ⟨⟨w, r, j, rfl⟩, ⟨origins, -, named⟩, -, -, requests, apart⟩ := beside
  exact ⟨⟨rest, r, j, rfl⟩, ⟨origins, inOrder, named⟩, inOrder, List.Perm.refl _, requests, apart⟩

theorem Beside.waiting_eq (beside : s.Beside kept [] t) (numbered : Numbered kept) :
    t.waiting = s.waiting :=
  beside.right.unique numbered beside.left.inOrder beside.waiting

section Tracks

open Cache (Moves)

theorem get_bind_tracks {α : Type} {next : Scheduler → Action Scheduler α}
    (same : ∀ (s : Scheduler) (waiting : List SeqId) (requests : OrderedMap String SeqId)
      (journal : Journal), next { s with waiting, requests, cache := { s.cache with journal } } = next s)
    (rest : ∀ s, (next s).Tracks (Beside kept ids)) : (get >>= next).Tracks (Beside kept ids) := by
  refine .get_bind (fun s t beside => ?_) rest
  obtain ⟨w, r, j, rfl⟩ := beside.same
  exact same s w r j

theorem onCache_tracks {α : Type} {act : Action Cache α} (tracks : act.Tracks (Cache.Like kept)) :
    (onCache act).Tracks (Beside kept ids) :=
  .inside fun _ _ beside => ⟨Cache.Like kept, tracks, beside.like, fun _ _ like => beside.acted like⟩

theorem edit_tracks {f : Sequence → Sequence} (same : ∀ q, (f q).origin = q.origin) :
    (edit id f).Tracks (Beside kept ids) :=
  onCache_tracks (Cache.edit_tracks same)

theorem report_tracks (severity : Logging.Severity) (message : String) :
    (report severity message).Tracks (Beside kept ids) :=
  onCache_tracks (Cache.report_tracks severity source message)

theorem look_bind_tracks {α : Type} {next : Sequence → Action Scheduler α}
    (rest : ∀ q, q.origin = originAt kept id → (next q).Tracks (Beside kept ids)) :
    (look id >>= next).Tracks (Beside kept ids) := by
  intro s t beside
  have origin := beside.left.origin id
  obtain ⟨w, r, j, rfl⟩ := beside.same
  exact rest (s.sequence id) origin s _ beside

theorem stopRunning_tracks (id : SeqId) : (stopRunning id).Tracks (Beside kept ids) := by
  intro s t beside
  obtain ⟨w, r, j, rfl⟩ := beside.same
  exact (Action.Tracks.ofExcept (without id s.running) _ _ beside).bind fun rest _ _ _ =>
    Action.alike_set.mpr (beside.moved rest _ _ _ _ _ _ _)

theorem finish_tracks (far : ∀ x ∈ ids, (originAt kept x).requestId ≠ (originAt kept id).requestId)
    (reason : FinishReason) (error : Option String) :
    (finish id reason error).Tracks (Beside kept ids) := by
  refine look_bind_tracks fun _ _ => .ite
    (.bind (onCache_tracks (Cache.release_tracks id)) fun _ => ?_) ?_
  all_goals
    refine .bind (edit_tracks fun _ => rfl) fun _ => look_bind_tracks fun q origin =>
      .bind (.modify fun s t beside => ?_) fun _ => .bind (report_tracks _ _) fun _ =>
      .bind (edit_tracks fun _ => rfl) fun _ => .pure _
    have named : q.requestId = (originAt kept id).requestId := congrArg Origin.requestId origin
    have same : t.ended = s.ended := by
      obtain ⟨w, r, j, rfl⟩ := beside.same
      rfl
    rw [same, named]
    exact beside.forgotten far _

/-- A sequence that was registered before leaves its queue. -/
theorem leaveQueue_tracks (outside : id ∉ ids) : (leaveQueue id).Tracks (Beside kept ids) := by
  intro s t beside
  have mem := beside.mem_waiting outside
  have waits := beside.left_waiting outside
  obtain ⟨w, r, j, rfl⟩ := beside.same
  rw [leaveQueue, Action.alike_get_bind]
  have same : ({ s with waiting := w, requests := r, cache := { s.cache with journal := j } } :
      Scheduler).sequence id = s.sequence id := rfl
  rw [same]
  cases status : (s.sequence id).status <;> simp only [status]
  case waiting =>
    by_cases member : id ∈ s.waiting
    · have member' : id ∈ w := mem.mpr member
      simp only [without, member, member', if_true]
      exact Action.alike_set.mpr waits
    · have member' : id ∉ w := mt mem.mp member
      simp only [without, member, member', if_false]
      exact ⟨rfl, beside⟩
  case running => exact stopRunning_tracks id _ _ beside
  case preempted =>
    exact (Action.Tracks.ofExcept (without id s.preempted) _ _ beside).bind fun rest _ _ _ =>
      Action.alike_set.mpr (beside.moved _ rest _ _ _ _ _ _)
  all_goals exact Action.Tracks.throw _ _ _ beside

/-- A request is given up that none of the sequences taken in beside is for. -/
theorem abort_tracks {name : String} (far : ∀ x ∈ ids, (originAt kept x).requestId ≠ name) :
    (abort name).Tracks (Beside kept ids) := by
  intro s t beside
  rw [abort, Action.alike_get_bind, beside.get?_eq far]
  cases found : s.requests.get? name with
  | none => exact Action.alike_pure.mpr beside
  | some id =>
      have named := (beside.left.named name id found).2
      refine Action.Tracks.bind (leaveQueue_tracks (beside.outside found)) (fun _ => .bind
        (finish_tracks (by rwa [named]) .cancelled none) fun output => .bind (.modify ?_) fun _ => .bind
        (report_tracks _ _) fun _ => .pure _) s t beside
      intro s t beside
      obtain ⟨w, r, j, rfl⟩ := beside.same
      exact beside.moved _ _ (s.pending ++ [output]) _ _ _ _ _

theorem evict_tracks (id : SeqId) : (evict id).Tracks (Beside kept ids) :=
  get_bind_tracks (fun _ _ _ _ => rfl) fun _ => .ite
    (.bind (onCache_tracks (Cache.swapOut_tracks id)) fun _ => .pure _)
    (.bind (onCache_tracks (Cache.release_tracks id)) fun _ =>
      .bind (edit_tracks fun _ => rfl) fun _ => .pure _)

theorem preempt_tracks (id : SeqId) : (preempt id).Tracks (Beside kept ids) := by
  refine .bind (edit_tracks fun _ => rfl) fun _ => .bind (.modify fun s t beside => ?_) fun _ =>
    .bind (evict_tracks id) fun _ => .bind (edit_tracks fun _ => rfl) fun _ =>
    .bind (.modify fun s t beside => ?_) fun _ => get_bind_tracks (fun _ _ _ _ => rfl) fun _ =>
    .bind (report_tracks _ _) fun _ => .pure _
  · obtain ⟨w, r, j, rfl⟩ := beside.same
    exact beside.moved _ _ _ _ (s.preemptedLast + 1) (s.preemptions + 1) _ _
  · obtain ⟨w, r, j, rfl⟩ := beside.same
    exact beside.moved _ (s.queued id s.preempted) _ _ _ _ _ _

theorem reserve_tracks (sequences : List SeqId) :
    ∀ moves, (reserve moves sequences).Tracks (Beside kept ids) := by
  induction sequences with
  | nil => exact fun _ => .pure _
  | cons latest others ih =>
      refine fun moves => .get_ite_set (fun s t beside => ?_) (.pure _) (fun s t beside => ?_)
        (.bind (preempt_tracks latest) fun more => ih _)
      · obtain ⟨w, r, j, rfl⟩ := beside.same
        exact Iff.rfl
      · obtain ⟨w, r, j, rfl⟩ := beside.same
        exact beside.moved s.running.dropLast _ _ _ _ _ _ _

theorem startRunning_tracks (plan : Plan) (id : SeqId) :
    (startRunning plan id).Tracks (Beside kept ids) := by
  refine .bind (edit_tracks fun _ => rfl) fun _ => .bind (.modify fun s t beside => ?_) fun _ =>
    get_bind_tracks (fun _ _ _ _ => rfl) fun _ => .pure _
  obtain ⟨w, r, j, rfl⟩ := beside.same
  exact beside.moved (s.queued id s.running) _ _ _ _ _ _ _

theorem restore_tracks (id : SeqId) : (restore id).Tracks (Beside kept ids) :=
  get_bind_tracks (fun _ _ _ _ => rfl) fun _ => .ite (onCache_tracks (Cache.swapIn_tracks id))
    (.bind (onCache_tracks (Cache.allocate_tracks id)) fun _ => .pure _)

theorem readmit_tracks (sequences : List SeqId) :
    ∀ plan, ( readmit plan sequences).Tracks (Beside kept ids) := by
  induction sequences with
  | nil => exact fun _ => .pure _
  | cons id rest ih =>
      refine fun plan => .get_ite_set (fun s t beside => ?_) (.pure _) (fun s t beside => ?_)
        (.bind (restore_tracks id) fun moves => .bind (startRunning_tracks _ id) fun plan =>
          look_bind_tracks fun q _ => .bind (report_tracks _ _) fun _ => ih plan)
      · obtain ⟨w, r, j, rfl⟩ := beside.same
        exact Iff.rfl
      · obtain ⟨w, r, j, rfl⟩ := beside.same
        exact beside.moved _ rest _ _ _ _ _ _

theorem admitWaiting_tracks {sequences : List SeqId} (inOrder : InOrder kept sequences) :
    ∀ plan, (admitWaiting plan sequences).Tracks (Beside kept []) := by
  induction sequences with
  | nil => exact fun _ => .pure _
  | cons id rest ih =>
      have inOrder' : InOrder kept rest := inOrder.sublist (List.sublist_cons_self id rest)
      refine fun plan => .get_ite_set (fun s t beside => ?_) (.pure _)
        (fun s t beside => beside.waited inOrder') (.bind (onCache_tracks (Cache.allocate_tracks id))
          fun _ => .bind (startRunning_tracks _ id) fun plan => ih inOrder' plan)
      obtain ⟨w, r, j, rfl⟩ := beside.same
      exact Iff.rfl

theorem rejectEach_tracks (sequences : List SeqId) : (rejectEach sequences).Tracks (Beside kept []) := by
  induction sequences with
  | nil => exact .pure _
  | cons id rest ih =>
      refine .bind (stopRunning_tracks id) fun _ => .bind (finish_tracks (by simp) _ _) fun output =>
        .bind (.modify fun s t beside => ?_) fun _ => ih
      obtain ⟨w, r, j, rfl⟩ := beside.same
      exact beside.moved _ _ (s.pending ++ [output]) _ _ _ _ _

theorem schedule_tracks (numbered : Numbered kept) : schedule.Tracks (Beside kept []) := by
  have builds : ∀ (plan : Plan) (swapOut : Moves), Action.Tracks (Beside kept []) (do
      let s ← get
      let assembly ← onCache (Assembly.build s.limits s.running)
      rejectEach assembly.rejected
      return ({ assembly.batch with swapIn := plan.swapIn, swapOut } : Batch)) := fun plan swapOut =>
    get_bind_tracks (fun _ _ _ _ => rfl) fun s => .bind (onCache_tracks (Assembly.build_tracks _ _))
      fun assembly => .bind (rejectEach_tracks _) fun _ => .pure _
  refine .bind (.modify fun s t beside => ?_) fun _ => get_bind_tracks (fun _ _ _ _ => rfl) fun s =>
    .bind (reserve_tracks _ _) fun swapOut => get_bind_tracks (fun _ _ _ _ => rfl) fun s =>
    .bind (readmit_tracks _ _) fun plan => ?_
  · obtain ⟨w, r, j, rfl⟩ := beside.same
    exact beside.moved _ _ _ _ 0 _ _ _
  · -- Here the queue of the waiting sequences is looked at.
    intro s t beside
    have waits := beside.waiting_eq numbered
    have admits := admitWaiting_tracks beside.left.inOrder plan
    obtain ⟨w, r, j, rfl⟩ := beside.same
    obtain rfl : w = s.waiting := waits
    rw [Action.alike_get_bind]
    exact Action.Tracks.ite (.bind admits fun plan => builds plan swapOut)
      (.bind (.pure plan) fun plan => builds plan swapOut) s _ beside

theorem prepare_tracks (numbered : Numbered kept) : prepare.Tracks (Beside kept []) := by
  refine .bind (schedule_tracks numbered) fun batch => get_bind_tracks (fun _ _ _ _ => rfl) fun s =>
    .bind (fun s t beside => ?_) fun _ => .pure _
  obtain ⟨w, r, j, rfl⟩ := beside.same
  exact ⟨rfl, beside.moved _ _ [] _ _ _ _ _⟩

theorem keepRecords_tracks (records : List Logging.Record) :
    (keepRecords records).Tracks (Beside kept ids) := by
  refine onCache_tracks (.modify ?_)
  rintro c _ ⟨⟨journal, rfl⟩, origins⟩
  exact ⟨⟨_, rfl⟩, origins⟩

theorem commitOne_tracks (id : SeqId) (sample : Sample) :
    (commitOne id sample).Tracks (Beside kept []) := by
  refine look_bind_tracks fun q _ => .bind (.require _ _) fun _ =>
    .bind (edit_tracks fun _ => rfl) fun _ => ?_
  refine .ite (.bind (stopRunning_tracks id) fun _ => finish_tracks (by simp) _ _)
    (.bind (onCache_tracks (Cache.append_tracks id _)) fun _ =>
      .ite (.bind (onCache_tracks (Cache.publish_tracks id)) fun _ => ?_) ?_)
  all_goals
    refine get_bind_tracks (fun _ _ _ _ => rfl) fun s => look_bind_tracks fun q _ => ?_
    split
    · exact .bind (stopRunning_tracks id) fun _ => finish_tracks (by simp) _ _
    · exact .bind (edit_tracks fun _ => rfl) fun _ => .pure _

theorem commitEach_tracks (samples : List (SeqId × Sample)) :
    (commitEach samples).Tracks (Beside kept []) := by
  induction samples with
  | nil => exact .pure _
  | cons first rest ih => exact .bind (commitOne_tracks _ _) fun _ => .bind ih fun _ => .pure _

theorem failEach_tracks (text : String) (sequences : List SeqId) :
    (failEach text sequences).Tracks (Beside kept []) := by
  induction sequences with
  | nil => exact .pure _
  | cons id rest ih =>
      exact look_bind_tracks fun _ _ => .ite (.bind (stopRunning_tracks id) fun _ =>
        .bind (finish_tracks (by simp) _ _) fun _ => .bind ih fun _ => .pure _) ih

theorem dropSwappedOut_tracks (targets : List Int) (sequences : List SeqId) :
    (dropSwappedOut targets sequences).Tracks (Beside kept []) := by
  induction sequences with
  | nil => exact .pure _
  | cons id rest ih =>
      exact get_bind_tracks (fun _ _ _ _ => rfl) fun _ => .ite
        (.bind (onCache_tracks (Cache.release_tracks id)) fun _ => .bind (edit_tracks fun _ => rfl) fun _ =>
          .bind (report_tracks _ _) fun _ => ih) ih

theorem dropSwappedIn_tracks (targets : List Int) (sequences : List SeqId) :
    (dropSwappedIn targets sequences).Tracks (Beside kept []) := by
  induction sequences with
  | nil => exact .pure _
  | cons id rest ih =>
      refine look_bind_tracks fun _ _ => .ite (.bind (stopRunning_tracks id) fun _ =>
        .bind (edit_tracks fun _ => rfl) fun _ => .bind (onCache_tracks (Cache.release_tracks id)) fun _ =>
        .bind (edit_tracks fun _ => rfl) fun _ => .bind (.modify fun s t beside => ?_) fun _ =>
        .bind (report_tracks _ _) fun _ => ih) ih
      obtain ⟨w, r, j, rfl⟩ := beside.same
      exact beside.moved _ (s.queued id s.preempted) _ _ _ _ _ _

theorem failBatch_tracks (b : Batch) (text : String) : (failBatch b text).Tracks (Beside kept []) :=
  .bind (report_tracks _ _) fun _ => .bind (failEach_tracks _ _) fun _ => .bind
    (get_bind_tracks (fun _ _ _ _ => rfl) fun _ => .bind (dropSwappedOut_tracks _ _) fun _ =>
      get_bind_tracks (fun _ _ _ _ => rfl) fun _ => dropSwappedIn_tracks _ _) fun _ => .pure _

theorem settle_tracks (p : Prepared) (e : Execution) : (settle p e).Tracks (Beside kept []) := by
  refine .bind (keepRecords_tracks _) fun _ => ?_
  split
  · exact .ite (failBatch_tracks _ _) (commitEach_tracks _)
  · exact failBatch_tracks _ _

theorem conclude_tracks (numbered : Numbered kept) (p : Prepared) (outputs : List Output) :
    (conclude p outputs).Tracks (Beside kept []) := by
  refine .bind (.modify fun s t beside => ?_) fun _ => .pure _
  have waits := beside.waiting_eq numbered
  obtain ⟨w, r, j, rfl⟩ := beside.same
  obtain rfl : w = s.waiting := waits
  exact beside.moved _ _ _ (s.iteration + 1) _ _ _ (count { s with iteration := s.iteration + 1 })

end Tracks

namespace Driven

variable {ω : Type} {d d' : Driven ω}

/-- Two schedulers that go on alike, with devices in one state. -/
def Beside (kept : List Origin) (d d' : Driven ω) : Prop :=
  d.scheduler.Beside kept [] d'.scheduler ∧ d'.device = d.device

theorem onScheduler_tracks {α : Type} {act : Action Scheduler α}
    (tracks : act.Tracks (Scheduler.Beside kept [])) :
    (onScheduler act : Action (Driven ω) α).Tracks (Beside kept) :=
  .inside fun _ _ beside =>
    ⟨Scheduler.Beside kept [], tracks, beside.1, fun _ _ after => ⟨after, beside.2⟩⟩

theorem execute_tracks (device : Device ω) (p : Prepared) : (execute device p).Tracks (Beside kept) := by
  rintro ⟨s, w⟩ ⟨t, w'⟩ ⟨beside, same⟩
  obtain rfl : w' = w := same
  have shown : t.members p.batch = s.members p.batch := by
    obtain ⟨w, r, j, rfl⟩ := beside.same
    rfl
  rw [execute, Action.alike_get_bind, shown]
  exact ⟨rfl, beside, rfl⟩

theorem step_tracks (numbered : Numbered kept) (device : Option (Device ω)) :
    (step device).Tracks (Beside kept) :=
  .bind (.demand _ _) fun device => .bind (onScheduler_tracks (prepare_tracks numbered)) fun p => .ite
    (.bind (execute_tracks device p) fun e => onScheduler_tracks <|
      .bind (settle_tracks p e) fun outputs => conclude_tracks numbered p outputs)
    (onScheduler_tracks (conclude_tracks numbered p []))

end Driven

end Scheduler

end PagedServing
