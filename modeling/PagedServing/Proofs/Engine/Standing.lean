import PagedServing.Proofs.Scheduler.Sessions

/-! # How requests stand

A request is first posted, then registered with the scheduler, and once it has ended its last
output is to be delivered. Through all of this its name is in flight, and it is the only one of
its name. Sequences that wait outside are left alone by whatever the scheduler does.
-/

namespace PagedServing

namespace Heard

variable {l l' : Ledger} {turns : List Turn} {outputs : List Output} {id : SeqId}

theorem names_nodup (heard : Heard l turns outputs l') (named : l.Named)
    (members : ∀ turn ∈ turns, turn.id ∈ l.requests.values) (distinct : (turns.map (·.id)).Nodup) :
    (outputs.map (·.requestId)).Nodup := by
  rw [heard.names]
  refine List.Nodup.map_on (fun turn taken later taken' same => ?_) distinct.of_map
  have equal := named.unique (members turn taken) (members later taken') same
  exact List.inj_on_of_nodup_map distinct taken taken' equal

theorem end_heard (heard : Heard l turns outputs l') (named : l.Named)
    (members : ∀ turn ∈ turns, turn.id ∈ l.requests.values) (distinct : (turns.map (·.id)).Nodup)
    (member : id ∈ l.requests.values) :
    id ∈ l'.requests.values ↔ ∀ o ∈ outputs, o.requestId = l.name id → o.reason = none := by
  by_cases spoke : id ∈ turns.map (·.id)
  · obtain ⟨turn, among, rfl⟩ := List.mem_map.mp spoke
    obtain ⟨-, registered, own⟩ := heard.own named members distinct among
    rw [registered]
    have alone : ∀ o, o ∈ outputs ∧ o.requestId = l.name turn.id ↔ o = l.output turn := by
      intro o
      rw [← List.mem_singleton (b := l.output turn), ← own, List.mem_filter, decide_eq_true_iff]
    constructor
    · intro goesOn o told name
      rw [(alone o).mp ⟨told, name⟩]
      exact goesOn
    · intro unended
      obtain ⟨told, name⟩ := (alone _).mpr rfl
      exact unended _ told name
  · obtain ⟨-, registered⟩ := heard.others named members distinct spoke
    have silent := named.silent heard.names members member spoke
    rw [registered]
    refine ⟨fun _ o told name => ?_, fun _ => member⟩
    exact absurd (decide_eq_true name) (List.filter_eq_nil_iff.mp silent o told)

end Heard

namespace Scheduler

variable {ω : Type} {config : Config} {device : Device ω} {s s' : Scheduler} {id : SeqId}

theorem Fresh.unregistered (fresh : s.Fresh id) (orderly : s.Orderly [] []) :
    id ∉ s.requests.values :=
  fun member => fresh.outside ((orderly.stands_iff member .waiting).mpr fresh.status)

theorem Fresh.of_same (fresh : s.Fresh id) (orderly' : s'.Orderly [] []) (knows : s'.cache.Knows id)
    (same : s'.cache.sequence id = s.cache.sequence id) (absent : id ∉ s'.requests.values) :
    s'.Fresh id :=
  ⟨knows, same ▸ fresh.status, fun waits => absent (orderly'.mem_values .waiting waits)⟩

theorem Driven.Round.bystander {d d' : Driven ω} (round : Driven.Round device d d')
    (orderly : d.scheduler.Orderly [] []) (fresh : d.scheduler.Fresh id) :
    d'.scheduler.cache.sequence id = d.scheduler.cache.sequence id := by
  obtain @⟨p, m, prepared, planned, assembled, _, turned⟩ := round
  have steady := assembled.steady
  have absent : id ∉ m.requests.values := steady.requests ▸ fresh.unregistered orderly
  obtain ⟨-, quiet⟩ := prepare_ledger orderly p m prepared
  have count : m.ledger.count = d.scheduler.ledger.count := by rw [quiet]
  have knows : m.cache.Knows id := knows_of_count count fresh.knows
  have queued : ∀ status, (m.cache.sequence id).status = status → status ≠ .running ∧ status ≠ .preempted := by
    rintro status stands
    refine ⟨fun runs => absent ?_, fun shelved => absent ?_⟩
    · exact planned.orderly.mem_values .running (planned.orderly.lined.queued_running id knows
        (stands.trans runs) List.not_mem_nil)
    · exact planned.orderly.mem_values .preempted (planned.orderly.lined.queued_preempted id knows
        (stands.trans shelved) List.not_mem_nil)
  obtain ⟨stopped, unshelved⟩ := queued _ rfl
  have same := steady.kept id stopped unshelved
  have outside : id ∉ p.batch.sequences := fun among =>
    stopped (planned.orderly.lined.running id (planned.running id among)).2
  exact ((turned.others id outside).kept unshelved).trans same

namespace Session

variable {r r' : Session ω} {c : Call}

theorem Told.newcomer (told : Told device r r' c) (orderly : r.scheduler.Orderly [] [])
    (knows : r'.scheduler.cache.Knows id) (unknown : ¬ r.scheduler.cache.Knows id) :
    r'.scheduler.Fresh id := by
  cases told with
  | constructed constructed _ _ =>
      refine ⟨knows, (constructed.unknown id unknown).1, fun waits => unknown ?_⟩
      have queues : r'.scheduler.waiting = r.scheduler.waiting := constructed.unmoved.queues .waiting
      exact (orderly.lined.waiting id (queues ▸ waits)).1
  | joined _ _ took _ _ _ => exact absurd ((took.knows id).mp knows) unknown
  | heard _ heard _ _ _ _ =>
      have count : r.scheduler.ledger.count = r'.scheduler.ledger.count := heard.count.symm
      exact absurd (knows_of_count count knows) unknown

/-- Whoever waits outside is left alone, unless it is taken in. -/
theorem perform_fresh (regular : r.Regular config) (valid : device.Valid)
    (proper : c.Proper r.scheduler) (fresh : r.scheduler.Fresh id) (another : c ≠ .add id) :
    (r.perform device c).scheduler.Fresh id ∧
      (r.perform device c).scheduler.sequence id = r.scheduler.sequence id := by
  have told := perform_told regular valid proper
  have orderly := regular.orderly
  have orderly' := (perform_onward regular valid proper).1.orderly
  have absent := fresh.unregistered orderly
  have absent' : id ∉ (r.perform device c).scheduler.requests.values := by
    rcases told.taken regular with ⟨-, fewer⟩ | ⟨new, called, -, -, -, requests, -, -⟩
    · exact fun member => absent (fewer id member)
    · rw [requests, List.mem_append, List.mem_singleton]
      rintro (member | rfl)
      · exact absent member
      · exact another called
  have unshelved : (r.scheduler.cache.sequence id).status ≠ .preempted := by simp [fresh.status]
  have same : (r.perform device c).scheduler.cache.sequence id = r.scheduler.cache.sequence id := by
    cases c with
    | create d => exact (create_orderly orderly proper).2.2.others id fresh.knows
    | add other =>
        rw [perform_add]
        rcases (add_orderly orderly proper).2.2 with kept | taken
        · exact (kept.spared id).kept unshelved
        · exact taken.sequences id
    | abort name =>
        obtain ⟨_, _, _, thinned⟩ := (abort_returns orderly name).after
        exact (thinned.others id absent).kept unshelved
    | releaseAll reason =>
        obtain ⟨_, _, _, thinned, _⟩ := (releaseAll_returns orderly reason).after
        exact (thinned.others id absent).kept unshelved
    | takePending => rfl
    | step =>
        obtain ⟨result, d, run, _, _, round⟩ := Driven.step_round orderly regular.paced valid
        have result : r.perform device .step =
            { r with driven := d, handed := r.handed ++ result.outputs } := by simp only [perform, run]
        rw [result]
        exact round.bystander orderly fresh
  exact ⟨fresh.of_same orderly' (told.origin fresh.knows).1 same absent', same⟩

/-- The sequences that were posted, and those that are registered. -/
def enlisted (r : Session ω) (posted : List SeqId) : List SeqId :=
  posted ++ r.scheduler.requests.values

/-- How what was posted, what is registered and what is to be delivered fit to the names in
    flight. -/
structure Standing (config : Config) (r : Session ω) (posted : List SeqId) (live : List String) :
    Prop where
  regular : r.Regular config
  nodup : posted.Nodup
  fresh : ∀ id ∈ posted, r.scheduler.Fresh id
  short : ∀ id ∈ posted, (r.scheduler.sequence id).prompt.length < config.maxLength
  apart : ∀ id ∈ r.enlisted posted, ∀ other ∈ r.enlisted posted,
    r.scheduler.ledger.name id = r.scheduler.ledger.name other → id = other
  distinct : live.Nodup
  flying : ∀ id ∈ r.enlisted posted, r.scheduler.ledger.name id ∈ live
  /-- Outputs belong to requests in flight, -/
  heard : ∀ o ∈ r.log, o.requestId ∈ live
  /-- none of them to a posted one, -/
  silent : ∀ id ∈ posted, ∀ o ∈ r.log, o.requestId ≠ r.scheduler.ledger.name id
  /-- and none tells of the end of a registered one. -/
  unended : ∀ id ∈ r.scheduler.requests.values, ∀ o ∈ r.log,
    o.requestId = r.scheduler.ledger.name id → o.reason = none
  /-- Nothing comes up after an end. -/
  last : r.log.Pairwise fun o later => o.reason ≠ none → later.requestId ≠ o.requestId

/-- A name belongs to a sequence that was posted or is registered, or to an end that is to be
    delivered. -/
def Claimed (r : Session ω) (posted : List SeqId) (name : String) : Prop :=
  (∃ id ∈ r.enlisted posted, r.scheduler.ledger.name id = name) ∨
    ∃ o ∈ r.log, o.requestId = name ∧ o.reason ≠ none

variable {posted : List SeqId} {live : List String}

theorem claimed_congr (scheduler : r'.scheduler = r.scheduler) (log : r'.log = r.log) (name : String) :
    Claimed r' posted name ↔ Claimed r posted name := by
  rw [Claimed, Claimed, enlisted, enlisted, scheduler, log]

theorem Standing.knows (standing : Standing config r posted live) (among : id ∈ r.enlisted posted) :
    r.scheduler.cache.Knows id :=
  (List.mem_append.mp among).elim (fun waits => (standing.fresh id waits).knows)
    standing.regular.orderly.knows

theorem Standing.nothing_behind {front back : List Output} {o : Output}
    (standing : Standing config r posted live) (log : r.log = front ++ back) (told : o ∈ front)
    (ended : o.reason ≠ none) : back.filter (·.requestId = o.requestId) = [] := by
  have last := standing.last
  rw [log, List.pairwise_append] at last
  refine List.filter_eq_nil_iff.mpr fun later among own => ?_
  exact last.2.2 o told later among ended (of_decide_eq_true own)

/-- What a call does that takes nobody in: some outputs come up, each of another registered request,
    and those whose end is among them are registered no more. -/
structure Passed (r r' : Session ω) (outputs : List Output) : Prop where
  name : ∀ id, r.scheduler.cache.Knows id →
    r'.scheduler.ledger.name id = r.scheduler.ledger.name id
  log : r'.log = r.log ++ outputs
  fewer : ∀ id ∈ r'.scheduler.requests.values, id ∈ r.scheduler.requests.values
  speakers : ∀ o ∈ outputs, ∃ id ∈ r.scheduler.requests.values,
    r.scheduler.ledger.name id = o.requestId
  alone : (outputs.map (·.requestId)).Nodup
  ends : ∀ id ∈ r.scheduler.requests.values, (id ∈ r'.scheduler.requests.values ↔
    ∀ o ∈ outputs, o.requestId = r.scheduler.ledger.name id → o.reason = none)

theorem Told.passed (told : Told device r r' c) (regular : r.Regular config)
    (another : ∀ id, c ≠ .add id) : ∃ outputs, r.Passed r' outputs := by
  cases told with
  | constructed constructed log _ =>
      have requests := constructed.unmoved.requests
      refine ⟨[], ?_, log.trans (List.append_nil _).symm, ?_, by simp, List.nodup_nil, ?_⟩
      · exact fun id knows => congrArg Sequence.requestId (constructed.others id knows)
      · exact fun id member => requests ▸ member
      · exact fun id member => iff_of_true (requests.symm ▸ member) (by simp)
  | joined called _ _ _ _ _ => exact absurd called (another _)
  | @heard turns outputs _ heard log _ members distinct =>
      have named := regular.orderly.named
      refine ⟨outputs, fun id _ => congrArg Origin.requestId (heard.origin id), log, fun id member => ?_,
        fun o among => ?_, heard.names_nodup named members distinct,
        fun id member => heard.end_heard named members distinct member⟩
      · by_cases spoke : id ∈ turns.map (·.id)
        · obtain ⟨turn, among, rfl⟩ := List.mem_map.mp spoke
          exact members turn among
        · exact ((heard.others named members distinct spoke).2).mp member
      · have spoken : o.requestId ∈ turns.map fun turn => r.scheduler.ledger.name turn.id :=
          heard.names ▸ List.mem_map_of_mem among
        obtain ⟨turn, taken, own⟩ := List.mem_map.mp spoken
        exact ⟨turn.id, members turn taken, own⟩

namespace Passed

variable {outputs : List Output} (passed : r.Passed r' outputs)
include passed

theorem enlisted (among : id ∈ r'.enlisted posted) : id ∈ r.enlisted posted :=
  (List.mem_append.mp among).elim (List.mem_append_left _) fun member =>
    List.mem_append_right posted (passed.fewer id member)

/-- What was in flight stays in flight. -/
theorem standing (standing : Standing config r posted live) (regular' : r'.Regular config)
    (outside : ∀ id ∈ posted, r'.scheduler.Fresh id ∧
      r'.scheduler.sequence id = r.scheduler.sequence id) : Standing config r' posted live := by
  have name : ∀ id ∈ r.enlisted posted, r'.scheduler.ledger.name id = r.scheduler.ledger.name id :=
    fun id among => passed.name id (standing.knows among)
  have known : ∀ o ∈ r'.log, o ∈ r.log ∨ o ∈ outputs := fun o told =>
    List.mem_append.mp (passed.log ▸ told)
  constructor
  case regular => exact regular'
  case nodup => exact standing.nodup
  case fresh => exact fun id among => (outside id among).1
  case short =>
    intro id among
    rw [(outside id among).2]
    exact standing.short id among
  case apart =>
    intro id among other among' same
    have among := passed.enlisted among
    have among' := passed.enlisted among'
    rw [name id among, name other among'] at same
    exact standing.apart id among other among' same
  case distinct => exact standing.distinct
  case flying =>
    intro id among
    have among := passed.enlisted among
    rw [name id among]
    exact standing.flying id among
  case heard =>
    intro o told
    rcases known o told with old | new
    · exact standing.heard o old
    · obtain ⟨id, member, own⟩ := passed.speakers o new
      exact own ▸ standing.flying id (List.mem_append_right posted member)
  -- what comes up is said by requests, and no posted sequence is one
  case silent =>
    intro id among o told same
    rw [name id (List.mem_append_left _ among)] at same
    rcases known o told with old | new
    · exact standing.silent id among o old same
    · obtain ⟨other, member, own⟩ := passed.speakers o new
      have both := standing.apart other (List.mem_append_right posted member) id
        (List.mem_append_left _ among) (own.trans same)
      exact (standing.fresh id among).unregistered standing.regular.orderly (both ▸ member)
  case unended =>
    intro id member o told own
    have before := passed.fewer id member
    rw [name id (List.mem_append_right posted before)] at own
    rcases known o told with old | new
    · exact standing.unended id before o old own
    · exact (passed.ends id before).mp member o new own
  case last =>
    rw [passed.log, List.pairwise_append]
    refine ⟨standing.last, ?_, fun o old later new ended same => ?_⟩
    -- each speaker says one thing in a call
    · exact (List.pairwise_map.mp passed.alone).imp fun different _ same => different same.symm
    · obtain ⟨id, member, own⟩ := passed.speakers later new
      exact ended (standing.unended id member o old (same.symm.trans own.symm))

theorem claimed (standing : Standing config r posted live) (name : String) :
    Claimed r' posted name ↔ Claimed r posted name := by
  constructor
  · rintro (⟨id, among, rfl⟩ | ⟨o, told, rfl, ended⟩)
    · have among := passed.enlisted among
      exact Or.inl ⟨id, among, (passed.name id (standing.knows among)).symm⟩
    · rcases List.mem_append.mp (passed.log ▸ told) with old | new
      · exact Or.inr ⟨o, old, rfl, ended⟩
      · obtain ⟨id, member, own⟩ := passed.speakers o new
        exact Or.inl ⟨id, List.mem_append_right posted member, own⟩
  · rintro (⟨id, among, rfl⟩ | ⟨o, old, rfl, ended⟩)
    · have same := passed.name id (standing.knows among)
      rcases List.mem_append.mp among with waits | member
      · exact Or.inl ⟨id, List.mem_append_left _ waits, same⟩
      · by_cases still : id ∈ r'.scheduler.requests.values
        · exact Or.inl ⟨id, List.mem_append_right posted still, same⟩
        · have told : ∃ o ∈ outputs, o.requestId = r.scheduler.ledger.name id ∧ o.reason ≠ none := by
            simpa using mt (passed.ends id member).mpr still
          obtain ⟨o, new, own⟩ := told
          exact Or.inr ⟨o, passed.log ▸ List.mem_append_right _ new, own⟩
    · exact Or.inr ⟨o, passed.log ▸ List.mem_append_left _ old, rfl, ended⟩

end Passed

/-- Requests stand as before, though some that were posted may be registered now. -/
structure Upheld (config : Config) (r r' : Session ω) (posted posted' : List SeqId)
    (live : List String) : Prop where
  standing : Standing config r' posted' live
  claimed : ∀ name, Claimed r' posted' name ↔ Claimed r posted name
  enlisted : ∀ id ∈ r'.enlisted posted', id ∈ r.enlisted posted

theorem Standing.called (standing : Standing config r posted live) (valid : device.Valid)
    (proper : c.Proper r.scheduler) (another : ∀ id, c ≠ .add id) :
    Upheld config r (r.perform device c) posted posted live := by
  have regular := standing.regular
  obtain ⟨outputs, passed⟩ := (perform_told regular valid proper).passed regular another
  refine ⟨passed.standing standing (perform_onward regular valid proper).1 fun id among => ?_,
    passed.claimed standing, fun id => passed.enlisted⟩
  exact perform_fresh regular valid proper (standing.fresh id among) (another id)

theorem Standing.admitted (standing : Standing config r posted live) (among : id ∈ posted) :
    r.scheduler.checkAdmission (r.scheduler.sequence id) = .ok () := by
  have short := standing.short id among
  rw [← standing.regular.config] at short
  have untaken : r.scheduler.requests.contains (r.scheduler.sequence id).requestId = false := by
    refine List.any_eq_false.mpr fun e entry taken => ?_
    have orderly := standing.regular.orderly
    have member : e.2 ∈ r.scheduler.requests.values := OrderedMap.mem_values.mpr ⟨e.1, entry⟩
    have name := (of_decide_eq_true taken).symm.trans (orderly.registered.named e entry)
    have same := standing.apart id (List.mem_append_left _ among) e.2
      (List.mem_append_right posted member) name
    exact (standing.fresh id among).unregistered orderly (same ▸ member)
  simp [checkAdmission, checkCapacity, untaken, Nat.not_le.mpr short]

theorem Standing.took (standing : Standing config r posted live) (device : Device ω)
    (among : id ∈ posted) : ∃ s, add id r.scheduler = .ok () s ∧
      (r.perform device (.add id)).scheduler = s ∧ r.scheduler.TakenUp s id ∧
      (r.perform device (.add id)).log = r.log := by
  obtain ⟨_, s, run, _, _, took⟩ := add_returns standing.regular.orderly (standing.fresh id among)
    (standing.admitted among)
  obtain ⟨_, ledger⟩ := add_ledger _ s run
  refine ⟨s, run, by simp only [perform, run]; rfl, took, ?_⟩
  simp only [perform, run, Session.log]
  exact congrArg (r.handed ++ ·) (congrArg Ledger.pending ledger)

/-- After what was posted first is taken in, requests stand as before. -/
theorem Standing.joined (standing : Standing config r (id :: posted) live) (valid : device.Valid) :
    Upheld config r (r.perform device (.add id)) (id :: posted) posted live := by
  have regular := standing.regular
  have proper : (Call.add id).Proper r.scheduler := standing.fresh id List.mem_cons_self
  obtain ⟨absent, nodup⟩ := List.nodup_cons.mp standing.nodup
  obtain ⟨s, _, result, took, log⟩ := standing.took device List.mem_cons_self
  have left : ∀ other ∈ posted, (r.perform device (.add id)).scheduler.Fresh other := fun other among =>
    (perform_fresh regular valid proper (standing.fresh other (List.mem_cons_of_mem id among))
      fun same => absent (by cases same; exact among)).1
  have requests : (r.perform device (.add id)).scheduler.requests.values =
      r.scheduler.requests.values ++ [id] := result ▸ took.requests
  have name : ∀ other, (r.perform device (.add id)).scheduler.ledger.name other =
      r.scheduler.ledger.name other := fun other =>
    congrArg Sequence.requestId (result ▸ took.sequences other)
  have enlisted : ∀ other, other ∈ (r.perform device (.add id)).enlisted posted ↔
      other ∈ r.enlisted (id :: posted) := by
    intro other
    simp only [Session.enlisted, requests, List.mem_append, List.mem_cons, List.not_mem_nil, or_false]
    tauto
  refine ⟨?_, fun n => by simp only [Claimed, enlisted, name, log], fun other => (enlisted other).mp⟩
  constructor
  case regular => exact (perform_onward regular valid proper).1
  case nodup => exact nodup
  case fresh => exact left
  case short =>
    intro other among
    rw [show (r.perform device (.add id)).scheduler.sequence other = r.scheduler.sequence other from
      result ▸ took.sequences other]
    exact standing.short other (List.mem_cons_of_mem id among)
  case apart =>
    intro other among another among' same
    rw [name, name] at same
    exact standing.apart other ((enlisted other).mp among) another ((enlisted another).mp among') same
  case distinct => exact standing.distinct
  case flying =>
    intro other among
    rw [name]
    exact standing.flying other ((enlisted other).mp among)
  case heard => exact log ▸ standing.heard
  case silent =>
    intro other among o told
    rw [name]
    exact standing.silent other (List.mem_cons_of_mem id among) o (log ▸ told)
  case unended =>
    intro other member o told own
    rw [name] at own
    rw [log] at told
    rw [requests, List.mem_append, List.mem_singleton] at member
    rcases member with member | rfl
    · exact standing.unended other member o told own
    · exact absurd own (standing.silent other List.mem_cons_self o told)
  case last => exact log ▸ standing.last

theorem mem_enlisted_append {other : SeqId} :
    other ∈ r.enlisted (posted ++ [id]) ↔ other ∈ r.enlisted posted ∨ other = id := by
  simp only [Session.enlisted, List.mem_append, List.mem_singleton]
  tauto

theorem claimed_append (name : String) : Claimed r (posted ++ [id]) name ↔
    Claimed r posted name ∨ name = r.scheduler.ledger.name id := by
  constructor
  · rintro (⟨other, among, own⟩ | told)
    · rcases mem_enlisted_append.mp among with old | rfl
      · exact Or.inl (Or.inl ⟨other, old, own⟩)
      · exact Or.inr own.symm
    · exact Or.inl (Or.inr told)
  · rintro ((⟨other, old, own⟩ | told) | rfl)
    · exact Or.inl ⟨other, mem_enlisted_append.mpr (Or.inl old), own⟩
    · exact Or.inr told
    · exact Or.inl ⟨id, mem_enlisted_append.mpr (Or.inr rfl), rfl⟩

/-- A sequence whose name is free may be posted. -/
theorem Standing.accepted (standing : Standing config r posted live) (fresh : r.scheduler.Fresh id)
    (new : id ∉ posted) (short : (r.scheduler.sequence id).prompt.length < config.maxLength)
    (free : r.scheduler.ledger.name id ∉ live) :
    Standing config r (posted ++ [id]) (live ++ [r.scheduler.ledger.name id]) := by
  have unlike : ∀ other ∈ r.enlisted posted,
      r.scheduler.ledger.name other ≠ r.scheduler.ledger.name id := fun other among same =>
    free (same ▸ standing.flying other among)
  constructor
  case regular => exact standing.regular
  case nodup => simpa [List.nodup_append, new] using ⟨standing.nodup, fun _ among same => new (same ▸ among)⟩
  case fresh =>
    intro other among
    rcases List.mem_append.mp among with old | same
    · exact standing.fresh other old
    · exact List.mem_singleton.mp same ▸ fresh
  case short =>
    intro other among
    rcases List.mem_append.mp among with old | same
    · exact standing.short other old
    · exact List.mem_singleton.mp same ▸ short
  case apart =>
    intro other among another among' same
    rcases mem_enlisted_append.mp among with old | rfl <;>
      rcases mem_enlisted_append.mp among' with old' | rfl
    · exact standing.apart other old another old' same
    · exact absurd same (unlike other old)
    · exact absurd same.symm (unlike another old')
    · rfl
  case distinct =>
    simpa [List.nodup_append, free] using ⟨standing.distinct, fun _ among same => free (same ▸ among)⟩
  case flying =>
    intro other among
    rcases mem_enlisted_append.mp among with old | rfl
    · exact List.mem_append_left _ (standing.flying other old)
    · exact List.mem_append_right live List.mem_cons_self
  case heard => exact fun o told => List.mem_append_left _ (standing.heard o told)
  case silent =>
    intro other among o told
    rcases List.mem_append.mp among with old | same
    · exact standing.silent other old o told
    · obtain rfl := List.mem_singleton.mp same
      exact fun own => free (own ▸ standing.heard o told)
  case unended => exact standing.unended
  case last => exact standing.last

theorem Standing.skipped (standing : Standing config r posted live)
    (scheduler : r'.scheduler = r.scheduler) (log : r'.log.Sublist r.log) :
    Standing config r' posted live where
  regular := by
    obtain ⟨orderly, paced, config, even⟩ := standing.regular
    exact ⟨scheduler ▸ orderly, scheduler ▸ paced, scheduler ▸ config, scheduler ▸ even⟩
  nodup := standing.nodup
  fresh := scheduler ▸ standing.fresh
  short := scheduler ▸ standing.short
  apart := by
    rw [Session.enlisted, scheduler]
    exact standing.apart
  distinct := standing.distinct
  flying := by
    rw [Session.enlisted, scheduler]
    exact standing.flying
  heard o told := standing.heard o (log.subset told)
  silent id among o told := by
    rw [scheduler]
    exact standing.silent id among o (log.subset told)
  unended id member o told := by
    rw [scheduler] at member ⊢
    exact standing.unended id member o (log.subset told)
  last := standing.last.sublist log

theorem Standing.forgotten {o : Output} (standing : Standing config r posted live)
    (scheduler : r'.scheduler = r.scheduler) (log : r.log = o :: r'.log) (ended : o.reason ≠ none) :
    Standing config r' posted (live.erase o.requestId) ∧
      ∀ name, Claimed r' posted name ↔ Claimed r posted name ∧ name ≠ o.requestId := by
  have skipped : Standing config r' posted live :=
    standing.skipped scheduler (log ▸ List.sublist_cons_self o r'.log)
  have told : o ∈ r.log := log ▸ List.mem_cons_self
  have enlisted : r'.enlisted posted = r.enlisted posted := by
    rw [Session.enlisted, Session.enlisted, scheduler]
  have unlike : ∀ id ∈ r'.enlisted posted, r'.scheduler.ledger.name id ≠ o.requestId := by
    rw [enlisted, scheduler]
    intro id among same
    rcases List.mem_append.mp among with waits | member
    · exact standing.silent id waits o told same.symm
    · exact ended (standing.unended id member o told same.symm)
  have later : ∀ o' ∈ r'.log, o'.requestId ≠ o.requestId := fun o' among =>
    mt decide_eq_true (List.filter_eq_nil_iff.mp
      (standing.nothing_behind (show _ = [o] ++ _ from log) List.mem_cons_self ended) o' among)
  constructor
  · have stays : ∀ name ∈ live, name ≠ o.requestId → name ∈ live.erase o.requestId :=
      fun name among different => (List.mem_erase_of_ne different).mpr among
    exact { skipped with
      distinct := standing.distinct.erase _
      flying := fun id among => stays _ (skipped.flying id among) (unlike id among)
      heard := fun o' among => stays _ (skipped.heard o' among) (later o' among) }
  · intro name
    constructor
    · rintro (⟨id, among, rfl⟩ | ⟨o', among, rfl, ended'⟩)
      · refine ⟨Or.inl ⟨id, enlisted ▸ among, ?_⟩, unlike id among⟩
        rw [scheduler]
      · exact ⟨Or.inr ⟨o', log ▸ List.mem_cons_of_mem o among, rfl, ended'⟩, later o' among⟩
    · rintro ⟨⟨id, among, rfl⟩ | ⟨o', among, rfl, ended'⟩, different⟩
      · refine Or.inl ⟨id, enlisted.symm ▸ among, ?_⟩
        rw [scheduler]
      · rw [log, List.mem_cons] at among
        rcases among with rfl | among
        · exact absurd rfl different
        · exact Or.inr ⟨o', among, rfl, ended'⟩

theorem Regular.reported (regular : r.Regular config) (journal : Logging.Journal) :
    (r.become { r.scheduler with cache := { r.scheduler.cache with journal } }).Regular config := by
  have kept : r.scheduler.Kept { r.scheduler with cache := { r.scheduler.cache with journal } } :=
    .of_unmoved ⟨rfl, rfl, fun _ => rfl⟩ fun _ => rfl
  have orderly := regular.orderly.reported journal
  exact ⟨orderly, kept.paced regular.orderly orderly regular.paced, regular.config, regular.even⟩

theorem Standing.reported (standing : Standing config r posted live) (journal : Logging.Journal) :
    Standing config (r.become { r.scheduler with cache := { r.scheduler.cache with journal } })
      posted live :=
  { standing with
    regular := standing.regular.reported journal
    fresh := fun id among => ⟨(standing.fresh id among).knows, (standing.fresh id among).status,
      (standing.fresh id among).outside⟩ }

end Session

end Scheduler

end PagedServing
