import PagedServing.Proofs.Queue
import PagedServing.Proofs.Scheduler.Schedule

/-! # Queues in order of priority

Running sequences stand in front of the preempted ones, all in the order of their priority.
Preempting the last running sequence puts it in front of the preempted ones, and the first of
those comes back behind the running ones. So planning does not rearrange them, and whoever
comes first goes on running.
-/

namespace PagedServing.Scheduler

variable {s s' s'' : Scheduler} {id : SeqId}

/-- Nobody ends and nobody gets a token. Only sequences that have not ended are worked on, and
    they run or are preempted afterwards. -/
structure Steady (s s' : Scheduler) : Prop where
  config : s'.config = s.config
  requests : s'.requests = s.requests
  account : ∀ id, (s'.cache.sequence id).account = (s.cache.sequence id).account
  ended : ∀ id, (s.cache.sequence id).status.isTerminal = true →
    s'.cache.sequence id = s.cache.sequence id
  kept : ∀ id, (s'.cache.sequence id).status ≠ .running →
    (s'.cache.sequence id).status ≠ .preempted → s'.cache.sequence id = s.cache.sequence id

theorem Steady.refl (s : Scheduler) : s.Steady s :=
  ⟨rfl, rfl, fun _ => rfl, fun _ _ => rfl, fun _ _ _ => rfl⟩

theorem Steady.trans (first : s.Steady s') (second : s'.Steady s'') : s.Steady s'' := by
  constructor
  case config => exact second.config.trans first.config
  case requests => exact second.requests.trans first.requests
  case account => exact fun id => (second.account id).trans (first.account id)
  case ended =>
    intro id terminal
    have same := first.ended id terminal
    rw [← same] at terminal
    exact (second.ended id terminal).trans same
  case kept =>
    intro id stopped unshelved
    have same := second.kept id stopped unshelved
    rw [same] at stopped unshelved
    exact same.trans (first.kept id stopped unshelved)

/-- Work on one sequence that keeps its account. -/
theorem Steady.of_handled (config : s'.config = s.config) (requests : s'.requests = s.requests)
    (handled : s.cache.Handled s'.cache id)
    (account : (s'.cache.sequence id).account = (s.cache.sequence id).account)
    (before : (s.cache.sequence id).status.isTerminal = false)
    (after : (s'.cache.sequence id).status = .running ∨
      (s'.cache.sequence id).status = .preempted) : s.Steady s' := by
  constructor
  case config => exact config
  case requests => exact requests
  case account =>
    intro other
    by_cases same : other = id
    · rw [same, account]
    · rw [handled.others other same]
  case ended =>
    intro other terminal
    by_cases same : other = id
    · simp [same, before] at terminal
    · exact handled.others other same
  case kept =>
    intro other stopped unshelved
    by_cases same : other = id
    · rw [same] at stopped unshelved
      exact (after.elim stopped unshelved).elim
    · exact handled.others other same

/-- Some sequences in the order of their priority. -/
def Ranked (s : Scheduler) (ids : List SeqId) : Prop :=
  ids.Pairwise fun a b => s.precedes a b = true

theorem precedes_of_origins
    (origins : ∀ id, (s'.cache.sequence id).origin = (s.cache.sequence id).origin) (a b : SeqId) :
    s'.precedes a b = s.precedes a b :=
  Sequence.precedes_congr (origins a) (origins b)

theorem Steady.precedes (steady : s.Steady s') (a b : SeqId) : s'.precedes a b = s.precedes a b :=
  precedes_of_origins (fun id => Sequence.origin_of_account (steady.account id)) a b

theorem Steady.ranked (steady : s.Steady s') {ids : List SeqId} (ranked : s.Ranked ids) :
    s'.Ranked ids := by
  unfold Ranked
  simp only [steady.precedes]
  exact ranked

/-- All queues, one behind the other. -/
def line (s : Scheduler) : List SeqId :=
  s.running ++ s.preempted ++ s.waiting

theorem ranked_of_same {ids : List SeqId} (ranked : s.Ranked ids)
    (same : ∀ id ∈ ids, s'.cache.sequence id = s.cache.sequence id) : s'.Ranked ids := by
  refine ranked.imp_of_mem fun first second before => ?_
  unfold precedes sequence
  rw [same _ first, same _ second]
  exact before

theorem Ranked.first {rest : List SeqId} (ranked : s.Ranked (id :: rest)) {other : SeqId}
    (member : other ∈ rest) : s.precedes id other = true :=
  (List.pairwise_cons.mp ranked).1 other member

theorem precedes_asymm {a b : SeqId} (before : s.precedes a b = true) : s.precedes b a = false :=
  Sequence.precedes_asymm before

/-- Whoever comes before all others stands at the head. -/
theorem Ranked.head {ids : List SeqId} (ranked : s.Ranked ids) (member : id ∈ ids)
    (least : ∀ other ∈ ids, other ≠ id → s.precedes id other = true) : ∃ rest, ids = id :: rest := by
  cases ids with
  | nil => cases member
  | cons head rest =>
      refine ⟨rest, ?_⟩
      by_cases same : head = id
      · rw [same]
      · have later : id ∈ rest := (List.mem_cons.mp member).resolve_left (Ne.symm same)
        have before := least head List.mem_cons_self same
        simp [precedes_asymm (ranked.first later)] at before

/-- A batch takes ranked candidates in their order. -/
theorem Ranked.prioritised {ids : List SeqId} (ranked : s.Ranked ids) :
    Assembly.prioritised s.cache ids = ids := by
  induction ids with
  | nil => rfl
  | cons id rest ih =>
      have same : Assembly.prioritised s.cache rest = rest := ih (List.pairwise_cons.mp ranked).2
      rw [Assembly.prioritised, List.foldr_cons, ← Assembly.prioritised, same]
      cases rest with
      | nil => rfl
      | cons other rest =>
          have behind : (s.cache.sequence other).precedes (s.cache.sequence id) = false :=
            precedes_asymm (ranked.first List.mem_cons_self)
          simp [Assembly.rank, behind]

theorem Ranked.queued {ids : List SeqId} (ranked : s.Ranked ids) (sound : s.cache.Sound)
    (knows : s.cache.Knows id) (known : ∀ other ∈ ids, s.cache.Knows other) (absent : id ∉ ids) :
    s.Ranked (s.queued id ids) := by
  have transitive : IsTrans SeqId fun a b => s.precedes a b = true :=
    ⟨fun _ _ _ first second => Sequence.precedes_trans first second⟩
  refine Queue.insert_pairwise ranked (fun _ _ before => before) ?_ fun _ _ before => before
  intro other among behind
  have numbers : (s.sequence other).id ≠ (s.sequence id).id := by
    unfold sequence
    rw [sound.filed.numbered other (known other among), sound.filed.numbered id knows]
    exact fun same => absent (same ▸ among)
  refine (Sequence.precedes_total numbers).resolve_right fun before => ?_
  have before : s.precedes id other = true := before
  simp [before] at behind

namespace Retreat

theorem steady (retreat : s.Retreat s' id) : s.Steady s' := by
  have member : id ∈ s'.preempted := by
    rw [retreat.preempted]
    exact (queued_perm s' id _).mem_iff.mpr List.mem_cons_self
  have before := (retreat.before.lined.running id (by simp [retreat.running])).2
  have after := (retreat.after.lined.preempted id member).2
  apply Steady.of_handled retreat.config retreat.requests retreat.handled retreat.account
  · rw [before]
    rfl
  · exact Or.inr after

theorem preempted_first (retreat : s.Retreat s' id) (ranked : s.Ranked (s.running ++ s.preempted)) :
    s'.preempted = id :: s.preempted := by
  rw [retreat.preempted]
  apply Queue.insert_first
  intro other shelved
  rw [retreat.steady.precedes]
  apply (List.pairwise_append.mp ranked).2.2 id ?_ other shelved
  simp [retreat.running]

theorem front (retreat : s.Retreat s' id) (ranked : s.Ranked (s.running ++ s.preempted)) :
    s'.running ++ s'.preempted = s.running ++ s.preempted := by
  rw [retreat.preempted_first ranked, retreat.running, List.append_assoc]
  rfl

end Retreat

theorem Retreated.keeps (retreated : s.Retreated s')
    (ranked : s.Ranked (s.running ++ s.preempted)) : s.Steady s' ∧ s'.waiting = s.waiting ∧
      s'.running ++ s'.preempted = s.running ++ s.preempted := by
  induction retreated with
  | refl => exact ⟨.refl s, rfl, rfl⟩
  | tail _ last ih =>
      obtain ⟨id, retreat⟩ := last
      obtain ⟨steady, waiting, front⟩ := ih
      refine ⟨steady.trans retreat.steady, retreat.waiting.trans waiting, ?_⟩
      refine (retreat.front ?_).trans front
      rw [front]
      exact steady.ranked ranked

theorem Retreated.running (retreated : s.Retreated s') (distinct : s.running.Nodup) :
    s'.running <+: s.running ∧ (s.running ≠ [] → s'.running ≠ []) ∧
      ∀ id ∈ s'.running, s'.cache.sequence id = s.cache.sequence id := by
  induction retreated with
  | refl => exact ⟨List.prefix_refl _, id, fun _ _ => rfl⟩
  | tail _ last ih =>
      obtain ⟨other, retreat⟩ := last
      obtain ⟨front, _, same⟩ := ih
      rw [retreat.running] at front same
      refine ⟨(List.prefix_append _ _).trans front, fun _ => retreat.some, fun id runs => ?_⟩
      have nodup := distinct.sublist front.sublist
      rw [List.nodup_append] at nodup
      have different : id ≠ other := nodup.2.2 id runs other (List.mem_singleton_self other)
      exact (retreat.handled.others id different).trans (same id (List.mem_append_left _ runs))

theorem Retreated.first (retreated : s.Retreated s') (distinct : s.running.Nodup) {rest : List SeqId}
    (head : s.running = id :: rest) : id ∈ s'.running := by
  obtain ⟨⟨others, split⟩, some, _⟩ := retreated.running distinct
  have split : s'.running ++ others = id :: rest := split.trans head
  have some : s'.running ≠ [] := some (by simp [head])
  obtain ⟨first, rest', left⟩ := List.exists_cons_of_ne_nil some
  rw [left, List.cons_append, List.cons.injEq] at split
  rw [left, split.1]
  exact List.mem_cons_self

namespace Entered

variable {plan plan' : Plan} (entered : s.Entered s' plan plan' id)
include entered

theorem running_perm : s'.running.Perm (id :: s.running) := by
  rw [entered.running]
  exact queued_perm s' id s.running

theorem mem_running {other : SeqId} : other ∈ s'.running ↔ other = id ∨ other ∈ s.running := by
  rw [entered.running_perm.mem_iff, List.mem_cons]

theorem runs : id ∈ s'.running :=
  entered.mem_running.mpr (Or.inl rfl)

theorem outside : id ∉ s.running := by
  intro runs
  have status := (entered.before.lined.running id runs).2
  rcases entered.queue with ⟨preempted, _⟩ | ⟨_, _, waiting⟩
  · have shelved : id ∈ s.preempted := by simp [preempted]
    simp [(entered.before.lined.preempted id shelved).2] at status
  · have waits : id ∈ s.waiting := by simp [waiting]
    simp [(entered.before.lined.waiting id waits).2] at status

theorem ne_of_runs {other : SeqId} (runs : other ∈ s.running) : other ≠ id :=
  fun same => entered.outside (same ▸ runs)

theorem kept {other : SeqId} (runs : other ∈ s.running) :
    s'.cache.sequence other = s.cache.sequence other :=
  entered.handled.others other (entered.ne_of_runs runs)

theorem steady : s.Steady s' := by
  have after := (entered.after.lined.running id entered.runs).2
  apply Steady.of_handled entered.config entered.requests entered.handled entered.account
  · rcases entered.queue with ⟨preempted, _⟩ | ⟨_, _, waiting⟩
    · have shelved : id ∈ s.preempted := by simp [preempted]
      rw [(entered.before.lined.preempted id shelved).2]
      rfl
    · have waits : id ∈ s.waiting := by simp [waiting]
      rw [(entered.before.lined.waiting id waits).2]
      rfl
  · exact Or.inl after

theorem running_last (last : ∀ other ∈ s.running, s.precedes other id = true) :
    s'.running = s.running ++ [id] := by
  rw [entered.running]
  apply Queue.insert_last
  intro other runs
  rw [entered.steady.precedes]
  exact precedes_asymm (last other runs)

theorem resumed_last (ranked : s.Ranked (s.running ++ s.preempted))
    (preempted : s.preempted = id :: s'.preempted) : s'.running = s.running ++ [id] := by
  apply entered.running_last
  intro other runs
  exact (List.pairwise_append.mp ranked).2.2 other runs id (by simp [preempted])

theorem front (ranked : s.Ranked (s.running ++ s.preempted)) :
    s'.Ranked (s'.running ++ s'.preempted) := by
  rcases entered.queue with ⟨preempted, _⟩ | ⟨_, resumed, _⟩
  · rw [entered.resumed_last ranked preempted, List.append_assoc]
    rw [preempted] at ranked
    exact entered.steady.ranked ranked
  · have ordered := entered.steady.ranked (List.pairwise_append.mp ranked).1
    rw [resumed, List.append_nil, entered.running]
    refine ordered.queued entered.after.sound entered.handled.knows' (fun other runs => ?_)
      entered.outside
    exact (entered.handled.knows_iff other).mpr (entered.before.lined.running other runs).1

theorem line (ranked : s.Ranked s.line) : s'.line = s.line := by
  unfold Scheduler.line at ranked ⊢
  have last : ∀ other ∈ s.running, s.precedes other id = true := by
    intro other runs
    rw [List.append_assoc] at ranked
    apply (List.pairwise_append.mp ranked).2.2 other runs id
    rcases entered.queue with ⟨preempted, _⟩ | ⟨_, _, waiting⟩
    · simp [preempted]
    · simp [waiting]
  rw [entered.running_last last]
  rcases entered.queue with ⟨preempted, waiting⟩ | ⟨preempted, resumed, waiting⟩
  · simp [preempted, waiting]
  · simp [preempted, resumed, waiting]

end Entered

/-- What every admission keeps is kept by a run of them. -/
theorem Advanced.induct {plan plan' : Plan} {motive : Scheduler → Plan → Prop}
    (advanced : Advanced (s, plan) (s', plan')) (start : motive s plan)
    (step : ∀ t t' q q' id, Entered t t' q q' id → motive t q → motive t' q') :
    motive s' plan' := by
  have general : ∀ {a b}, Advanced a b → motive a.1 a.2 → motive b.1 b.2 := by
    intro a b run first
    induction run with
    | refl => exact first
    | tail _ last ih =>
        obtain ⟨id, entered⟩ := last
        exact step _ _ _ _ id entered ih
  exact general advanced start

theorem Advanced.keeps {plan plan' : Plan} (advanced : Advanced (s, plan) (s', plan'))
    (ranked : s.Ranked (s.running ++ s.preempted)) : s.Steady s' ∧
      s'.Ranked (s'.running ++ s'.preempted) := by
  apply advanced.induct (motive := fun t _ => s.Steady t ∧ t.Ranked (t.running ++ t.preempted))
  · exact ⟨.refl s, ranked⟩
  · rintro t t' _ _ id entered ⟨steady, front⟩
    exact ⟨steady.trans entered.steady, entered.front front⟩

/-- Preempted sequences are let run from the first on, and waiting ones after the last of them. -/
theorem Advanced.admits {plan plan' : Plan} (advanced : Advanced (s, plan) (s', plan')) :
    ∃ back started, s.preempted = back ++ s'.preempted ∧ s.waiting = started ++ s'.waiting ∧
      (started ≠ [] → s'.preempted = []) ∧ s'.preemptedLast = s.preemptedLast := by
  apply advanced.induct (motive := fun t _ => ∃ back started, s.preempted = back ++ t.preempted ∧
    s.waiting = started ++ t.waiting ∧ (started ≠ [] → t.preempted = []) ∧
    t.preemptedLast = s.preemptedLast)
  · exact ⟨[], [], rfl, rfl, fun some => absurd rfl some, rfl⟩
  · rintro t t' _ _ id entered ⟨back, started, preempted, waiting, last, count⟩
    have count := entered.count.trans count
    rcases entered.queue with ⟨first, same⟩ | ⟨nobody, nobody', first⟩
    · have none : started = [] := by
        by_contra some
        cases first.symm.trans (last some)
      refine ⟨back ++ [id], started, ?_, ?_, fun some => absurd none some, count⟩
      · rw [preempted, first, List.append_assoc]
        rfl
      · rw [waiting, same]
    · refine ⟨back, started ++ [id], ?_, ?_, fun _ => nobody', count⟩
      · rw [preempted, nobody, nobody']
      · rw [waiting, first, List.append_assoc]
        rfl

theorem Advanced.line {plan plan' : Plan} (advanced : Advanced (s, plan) (s', plan'))
    (ranked : s.Ranked s.line) : s'.line = s.line := by
  have both := advanced.induct (motive := fun t _ => s.Steady t ∧ t.line = s.line)
    ⟨.refl s, rfl⟩ ?_
  · exact both.2
  · rintro t t' _ _ id entered ⟨steady, same⟩
    refine ⟨steady.trans entered.steady, ?_⟩
    rw [← same] at ranked ⊢
    exact entered.line (steady.ranked ranked)

theorem Advanced.running {plan plan' : Plan} (advanced : Advanced (s, plan) (s', plan'))
    (member : id ∈ s.running) :
    id ∈ s'.running ∧ s'.cache.sequence id = s.cache.sequence id := by
  apply advanced.induct (motive := fun t _ =>
    id ∈ t.running ∧ t.cache.sequence id = s.cache.sequence id)
  · exact ⟨member, rfl⟩
  · rintro t t' _ _ other entered ⟨runs, same⟩
    exact ⟨entered.mem_running.mpr (Or.inr runs), (entered.kept runs).trans same⟩

end PagedServing.Scheduler
