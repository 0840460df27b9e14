import PagedServing.Proofs.Scheduler.Progress

/-! # Nobody starves

If requests come in the order of their priority, then they stand in that order from the first
running sequence to the last waiting one. The first of all has a turn in every iteration, so
whoever comes later cannot hold up a request.
-/

namespace PagedServing.Scheduler

variable {ω : Type} {config : Config} {device : Device ω} {s s' : Scheduler} {id r : SeqId}
  {ids : List SeqId}

/-- Whoever is taken in comes after all requests there are. Nothing is released. -/
def inTurn : Rules where
  taking s id := s.checkAdmission (s.cache.sequence id) = .ok () →
    ∀ other ∈ s.requests.values, s.precedes other id = true
  releasing _ := False

theorem mem_line (orderly : s.Orderly [] []) : id ∈ s.line ↔ id ∈ s.requests.values := by
  rw [orderly.registered.mem_values, line, List.mem_append, List.mem_append]
  constructor
  · rintro ((runs | shelved) | waits)
    · exact Or.inl ⟨.running, runs⟩
    · exact Or.inl ⟨.preempted, shelved⟩
    · exact Or.inl ⟨.waiting, waits⟩
  · rintro (⟨status, queued⟩ | none)
    · cases status
      case waiting => exact Or.inr queued
      case running => exact Or.inl (Or.inl queued)
      case preempted => exact Or.inl (Or.inr queued)
      case finished => cases queued
      case cancelled => cases queued
    · cases none

theorem Reduced.line (reduced : s.Reduced s') : s'.line.Sublist s.line :=
  ((reduced.queues .running).append (reduced.queues .preempted)).append (reduced.queues .waiting)

theorem Operated.ranked (operated : s.Operated inTurn s') (orderly : s.Orderly [] [])
    (ranked : s.Ranked s.line) : s'.Ranked s'.line := by
  cases operated with
  | constructed takes =>
      obtain ⟨_, _, unmoved, _, others, _⟩ := create_orderly orderly takes
      have running := unmoved.queues .running
      have preempted := unmoved.queues .preempted
      have waiting := unmoved.queues .waiting
      have same : ((create _).after s).line = s.line :=
        congrArg₂ _ (congrArg₂ _ running preempted) waiting
      rw [same]
      apply ranked_of_same ranked
      intro id member
      exact others id (orderly.knows ((mem_line orderly).mp member))
  | @taken id fresh may =>
      rcases (add_orderly orderly fresh).2.2 with kept | taken
      · exact kept.reduced.ranked ranked kept.reduced.line
      · have before := may taken.accepted
        have same : ∀ other, ((add id).after s).cache.sequence other = s.cache.sequence other :=
          taken.sequences
        have precedes : ∀ a b, ((add id).after s).precedes a b = s.precedes a b := by
          intro a b
          unfold Scheduler.precedes sequence
          rw [same, same]
        have last : ((add id).after s).line = s.line ++ [id] := by
          have behind : ∀ other ∈ s.waiting, ((add id).after s).precedes id other = false := by
            intro other waits
            rw [precedes]
            exact precedes_asymm (before other (orderly.mem_values .waiting waits))
          unfold line
          rw [taken.running, taken.preempted, taken.waiting, queued, Queue.insert_last behind]
          simp
        rw [last]
        unfold Ranked
        simp only [precedes]
        apply List.pairwise_append.mpr
        refine ⟨ranked, List.pairwise_singleton _ _, fun other member new among => ?_⟩
        rw [List.mem_singleton.mp among]
        exact before other ((mem_line orderly).mp member)
  | aborted name =>
      obtain ⟨_, _, _, thinned⟩ := (abort_returns orderly name).after
      exact thinned.reduced.ranked ranked thinned.reduced.line
  | released may => exact may.elim

theorem Follows.ranked (valid : device.Valid) {d : Driven ω}
    (follows : Follows config device inTurn d) : d.scheduler.Ranked d.scheduler.line := by
  induction follows with
  | start threshold w => exact List.Pairwise.nil
  | operated before operated ih => exact operated.ranked (before.reachable.orderly valid).1 ih
  | stepped before ih =>
      have orderly := (before.reachable.orderly valid).1
      have paced := before.reachable.paced valid
      obtain ⟨_, _, _, _, _, assembled, _, turned⟩ := (Driven.step_round orderly paced valid).after
      have line := assembled.line ih
      have planned := assembled.steady.ranked ih
      rw [← line] at planned
      exact turned.reduced.ranked planned turned.reduced.line

theorem Assembled.first_in_line {t : Scheduler} {b : Batch} (assembled : s.Assembled t b)
    (ranked : s.Ranked s.line) {rest : List SeqId} (head : s.line = id :: rest) :
    id ∈ t.running := by
  have line := assembled.line ranked
  have busy : s.isIdle = false := by
    cases idle : s.isIdle with
    | false => rfl
    | true =>
        simp only [isIdle, Bool.and_eq_true, List.isEmpty_iff] at idle
        simp [Scheduler.line, idle] at head
  cases running : t.running with
  | nil => exact absurd running (assembled.some busy)
  | cons first others =>
      rw [head, Scheduler.line, running] at line
      simp only [List.cons_append, List.cons.injEq] at line
      rw [← line.1]
      exact List.mem_cons_self

/-- A sequence is a request or has ended. -/
def Tracked (s : Scheduler) (id : SeqId) : Prop :=
  id ∈ s.requests.values ∨ (s.cache.sequence id).status.isTerminal = true

/-- Of the sequences `ids`, among them the request `r` if it is left, none gets ahead again once
    it has ended. All other requests come after `r`, and a bounded number of tokens is to come. -/
structure Awaited (s : Scheduler) (ids : List SeqId) (r : SeqId) (bound : Int) : Prop where
  tracked : ∀ id ∈ ids, s.Tracked id
  later : r ∈ s.requests.values → ∀ id ∈ s.requests.values, id ∉ ids → s.precedes r id = true
  owed : r ∈ s.requests.values → s.owed ids ≤ bound

theorem Spared.tracked (spared : Spared s s' id) (tracked : s.Tracked id) : s'.Tracked id := by
  rcases tracked with member | terminal
  · exact Or.inl (spared.registered member)
  · right
    rw [spared.status]
    exact terminal

theorem Awaited.thinned {allowed : FinishReason → Prop} {bound : Int}
    (awaited : s.Awaited ids r bound) (thinned : s.Thinned s' allowed) (orderly : s.Orderly [] [])
    (paced : s.Paced) : s'.Awaited ids r bound := by
  have reduced := thinned.reduced
  constructor
  case tracked =>
    intro id member
    rcases thinned.each id with spared | past
    · exact spared.tracked (awaited.tracked id member)
    · exact Or.inr past.terminal
  case later =>
    intro left id member outside
    rw [precedes_of_origins reduced.origins]
    exact awaited.later (reduced.requests r left) id (reduced.requests id member) outside
  case owed =>
    intro left
    have less := total_map_le fun id (_ : id ∈ ids) => thinned.due orderly paced id
    exact less.trans (awaited.owed (reduced.requests r left))

theorem Awaited.constructed {bound : Int} (awaited : s.Awaited ids r bound)
    (constructed : s.Constructed s') (orderly : s.Orderly [] []) : s'.Awaited ids r bound := by
  obtain ⟨unmoved, _, others, _⟩ := constructed
  have same : ∀ id ∈ s.requests.values, s'.cache.sequence id = s.cache.sequence id :=
    fun id member => others id (orderly.knows member)
  constructor
  case tracked =>
    intro id member
    rcases awaited.tracked id member with left | terminal
    · exact Or.inl (unmoved.requests.symm ▸ left)
    · right
      have knows : s.cache.Knows id := by
        by_contra unknown
        rw [Cache.sequence_of_unknown unknown] at terminal
        cases terminal
      rw [others id knows]
      exact terminal
  case later =>
    intro left id member outside
    rw [unmoved.requests] at left member
    unfold precedes sequence
    rw [same r left, same id member]
    exact awaited.later left id member outside
  case owed =>
    intro left
    rw [unmoved.requests] at left
    have due : ∀ id ∈ ids, s'.due id = s.due id := by
      intro id _
      unfold Scheduler.due
      rw [unmoved.requests]
      by_cases member : id ∈ s.requests.values
      · rw [if_pos member, if_pos member]
        exact rest_of_account unmoved.config (by rw [same id member])
      · rw [if_neg member, if_neg member]
    have equal : s'.owed ids = s.owed ids := congrArg total (List.map_congr_left due)
    rw [equal]
    exact awaited.owed left

/-- Whoever is taken in later comes after `r`. -/
theorem Awaited.taken {bound : Int} (awaited : s.Awaited ids r bound)
    (taken : s.TakenUp s' id) (fresh : s.Fresh id) (orderly' : s'.Orderly [] [])
    (may : inTurn.taking s id) (among : r ∈ ids) : s'.Awaited ids r bound := by
  have distinct := orderly'.registered.values_nodup
  rw [taken.requests, List.nodup_append] at distinct
  have new : id ∉ s.requests.values := fun old =>
    distinct.2.2 id old id (List.mem_singleton_self id) rfl
  have outside : id ∉ ids := by
    intro member
    rcases awaited.tracked id member with old | terminal
    · exact new old
    · rw [fresh.status] at terminal
      cases terminal
  have left : ∀ other ∈ ids, other ∈ s'.requests.values ↔ other ∈ s.requests.values := by
    intro other member
    rw [taken.requests, List.mem_append, List.mem_singleton]
    refine or_iff_left fun same => ?_
    exact outside (same ▸ member)
  constructor
  case tracked =>
    intro other member
    rcases awaited.tracked other member with old | terminal
    · exact Or.inl ((left other member).mpr old)
    · right
      rw [taken.sequences]
      exact terminal
  case later =>
    intro waits other member apart
    have waits : r ∈ s.requests.values := (left r among).mp waits
    unfold precedes sequence
    rw [taken.sequences, taken.sequences]
    rw [taken.requests, List.mem_append, List.mem_singleton] at member
    rcases member with old | rfl
    · exact awaited.later waits other old apart
    · exact may taken.accepted r waits
  -- the newcomer is none of those whose tokens are counted
  case owed =>
    intro waits
    have due : ∀ other ∈ ids, s'.due other = s.due other := by
      intro other member
      unfold Scheduler.due
      simp only [left other member]
      rw [rest_of_account taken.config (by rw [taken.sequences])]
    have equal : s'.owed ids = s.owed ids := congrArg total (List.map_congr_left due)
    rw [equal]
    exact awaited.owed ((left r among).mp waits)

theorem Awaited.operated {bound : Int} (awaited : s.Awaited ids r bound) (among : r ∈ ids)
    (operated : s.Operated inTurn s') (orderly : s.Orderly [] []) (paced : s.Paced) :
    s'.Awaited ids r bound := by
  have orderly' := (operated.served.orderly orderly).1
  cases operated with
  | constructed takes => exact awaited.constructed (create_orderly orderly takes).2.2 orderly
  | taken fresh may =>
      rcases (add_orderly orderly fresh).2.2 with kept | taken
      · exact awaited.thinned kept orderly paced
      · exact awaited.taken taken fresh orderly' may among
  | aborted name =>
      obtain ⟨_, _, _, thinned⟩ := (abort_returns orderly name).after
      exact awaited.thinned thinned orderly paced
  | released may => exact may.elim

theorem Turned.tracked {members : List SeqId} (turned : s.Turned s' members)
    (orderly' : s'.Orderly [] []) (tracked : s.Tracked id) : s'.Tracked id := by
  by_cases among : id ∈ members
  · rcases turned.each id among with past | wentOn
    · exact Or.inr past.terminal
    · left
      have knows : s'.cache.Knows id := by
        by_contra unknown
        have status := wentOn.status
        rw [Cache.sequence_of_unknown unknown] at status
        cases status
      exact orderly'.mem_values .running
        (orderly'.lined.queued_running id knows wentOn.status List.not_mem_nil)
  · exact (turned.others id among).tracked tracked

theorem Awaited.round {t : Scheduler} {p : Prepared} {bound : Int} (awaited : s.Awaited ids r bound)
    (among : r ∈ ids) (orderly : s.Orderly [] []) (paced : s.Paced) (ranked : s.Ranked s.line)
    (assembled : s.Assembled t p.batch) (turned : t.Turned s' p.batch.sequences)
    (orderly' : s'.Orderly [] []) : s'.Awaited ids r (bound - 1) := by
  have steady := assembled.steady
  have reduced := turned.reduced
  have fewer : ∀ id ∈ s'.requests.values, id ∈ s.requests.values := by
    intro id member
    rw [← steady.requests]
    exact reduced.requests id member
  constructor
  case tracked =>
    intro id member
    apply turned.tracked orderly'
    rcases awaited.tracked id member with left | terminal
    · exact Or.inl (steady.requests.symm ▸ left)
    · right
      rw [steady.ended id terminal]
      exact terminal
  case later =>
    intro left id member outside
    rw [precedes_of_origins reduced.origins, steady.precedes]
    exact awaited.later (fewer r left) id (fewer id member) outside
  case owed =>
    intro left
    have waits := fewer r left
    have queued := (mem_line orderly).mpr waits
    obtain ⟨head, rest, line⟩ := List.exists_cons_of_ne_nil (List.ne_nil_of_mem queued)
    have first : head ∈ s.requests.values := (mem_line orderly).mp (by simp [line])
    have awaits : head ∈ ids := by
      by_contra outside
      have before := awaited.later waits head first outside
      rw [line] at ranked queued
      rcases List.mem_cons.mp queued with rfl | later
      · exact outside among
      · simp [precedes_asymm (ranked.first later)] at before
    have runs := assembled.first_in_line ranked line
    have due := fun id => assembled.due orderly paced turned id
    have less : s'.owed ids < s.owed ids :=
      total_map_lt (fun id _ => (due id).1) awaits
        ((due head).2 (assembled.members.mem_iff.mpr runs) first)
    have most := awaited.owed waits
    omega

/-- The states of a run that goes on from `d`, with the number of iterations since. -/
inductive Continued (device : Device ω) (rules : Rules) (d : Driven ω) : Nat → Driven ω → Prop where
  | refl : Continued device rules d 0 d
  | operated {count : Nat} {d' : Driven ω} {s : Scheduler}
      (before : Continued device rules d count d') (operated : d'.scheduler.Operated rules s) :
      Continued device rules d count { d' with scheduler := s }
  | stepped {count : Nat} {d' : Driven ω} (before : Continued device rules d count d') :
      Continued device rules d (count + 1) ((Driven.step (some device)).after d')

theorem Continued.follows {rules : Rules} {d d' : Driven ω} {count : Nat}
    (continued : Continued device rules d count d') (follows : Follows config device rules d) :
    Follows config device rules d' := by
  induction continued with
  | refl => exact follows
  | operated _ operated ih => exact .operated ih operated
  | stepped _ ih => exact .stepped ih

theorem Continued.request {rules : Rules} {d d' : Driven ω} {count : Nat}
    (continued : Continued device rules d count d') (valid : device.Valid)
    (follows : Follows config device rules d) {prompt : List Int} (some : prompt ≠ [])
    (hashes : d'.scheduler.cache.Hashes prompt)
    (may : rules.taking
      ((create { prompt, blockSize := d'.scheduler.config.blockSize }).after d'.scheduler)
      d'.scheduler.cache.sequences.nextId) :
    Continued device rules d count (d'.request prompt) := by
  let draft : Draft := { prompt, blockSize := d'.scheduler.config.blockSize }
  have takes : d'.scheduler.Takes draft := ⟨rfl, hashes⟩
  have orderly := ((continued.follows follows).reachable.orderly valid).1
  have constructed : Continued device rules d count
      { d' with scheduler := (create draft).after d'.scheduler } :=
    .operated continued (.constructed takes)
  have taken := Continued.operated constructed (.taken (fresh_created orderly takes some) may)
  exact taken

theorem Continued.iterate {rules : Rules} {d d' : Driven ω} {count : Nat}
    (continued : Continued device rules d count d') (more : Nat) :
    Continued device rules d (count + more) (d'.iterate device more) := by
  induction more with
  | zero => exact continued
  | succ more ih => exact .stepped ih

theorem Continued.awaited (valid : device.Valid) {d d' : Driven ω} {count : Nat}
    (continued : Continued device inTurn d count d') (follows : Follows config device inTurn d)
    (member : r ∈ d.scheduler.requests.values) :
    d'.scheduler.Awaited d.scheduler.requests.values r (d.scheduler.budget - count) := by
  induction continued with
  | refl =>
      refine ⟨fun id among => Or.inl among, fun _ id among outside => absurd among outside, ?_⟩
      intro _
      rw [budget_eq]
      exact Int.le_of_eq (Int.sub_zero _).symm
  | operated before operated ih =>
      have reachable := (before.follows follows).reachable
      exact ih.operated member operated (reachable.orderly valid).1 (reachable.paced valid)
  | @stepped count d' before ih =>
      have follows' := before.follows follows
      have orderly := (follows'.reachable.orderly valid).1
      have paced := follows'.reachable.paced valid
      obtain ⟨_, orderly', _, _, _, assembled, _, turned⟩ :=
        (Driven.step_round orderly paced valid).after
      have awaited := ih.round member orderly paced (follows'.ranked valid) assembled turned orderly'
      have one : d.scheduler.budget - ((count + 1 : Nat) : Int) =
          d.scheduler.budget - count - 1 := by
        push_cast
        omega
      rw [one]
      exact awaited

/-- If requests come in the order of their priority, then the first of all gets a token or ends in
    the next iteration, and a request ends after no more iterations than there are tokens to get
    for the requests that are there with it, whoever comes later. -/
theorem starvation_bounded (valid : device.Valid) {d : Driven ω}
    (follows : Follows config device inTurn d) :
    (∀ id ∈ d.scheduler.requests.values,
      (∀ other ∈ d.scheduler.requests.values, other ≠ id → d.scheduler.precedes id other = true) →
        (Driven.step (some device)).Returns d fun _ d' =>
          (∃ token, (d'.scheduler.sequence id).completion =
            (d.scheduler.sequence id).completion ++ [token]) ∨
          (d'.scheduler.sequence id).isFinished = true) ∧
    ∀ r ∈ d.scheduler.requests.values, ∀ count d', Continued device inTurn d count d' →
      d.scheduler.budget ≤ count → (d'.scheduler.sequence r).isFinished = true := by
  have orderly := (follows.reachable.orderly valid).1
  have paced := follows.reachable.paced valid
  have ranked := follows.ranked valid
  constructor
  · intro id member least
    obtain ⟨rest, head⟩ := ranked.head ((mem_line orderly).mpr member) fun other among =>
      least other ((mem_line orderly).mp among)
    refine (Driven.step_round orderly paced valid).weaken ?_
    rintro _ d' ⟨_, _, _, _, assembled, _, turned⟩
    have runs := assembled.first_in_line ranked head
    rcases turned.each id (assembled.members.mem_iff.mpr runs) with past | wentOn
    · exact Or.inr past.terminal
    · exact Or.inl (wentOn.of_account (assembled.steady.account id)).completion
  · intro r member count d' continued enough
    have awaited := continued.awaited valid follows member
    have reachable := (continued.follows follows).reachable
    have orderly' := (reachable.orderly valid).1
    have paced' := reachable.paced valid
    rcases awaited.tracked r member with left | terminal
    · have some := owed_pos orderly' paced' member left
      have most := awaited.owed left
      omega
    · exact terminal

/-- Of two requests the second has ended in time, although a third one came later. -/
theorem starvation_bounded_sevens :
    let d := ((smallStart .swap true).request [5]).request [5, 6]
    d.scheduler.budget = 13 ∧ Continued sevens inTurn d 13 ((d.request [1]).iterate sevens 13) ∧
      (((d.request [1]).iterate sevens 13).scheduler.sequence 1).isFinished = true := by
  have first : Follows (smallConfig .swap true) sevens inTurn ((smallStart .swap true).request [5]) :=
    (Follows.start 20 ()).request sevens_valid (by decide) (by decide) fun _ => by decide +kernel
  have follows : Follows (smallConfig .swap true) sevens inTurn
      (((smallStart .swap true).request [5]).request [5, 6]) :=
    first.request sevens_valid (by decide) (by decide) fun _ => by decide +kernel
  have budget : (((smallStart .swap true).request [5]).request [5, 6]).scheduler.budget = 13 := by
    decide +kernel
  have member : 1 ∈
      (((smallStart .swap true).request [5]).request [5, 6]).scheduler.requests.values := by
    decide +kernel
  have later : Continued sevens inTurn (((smallStart .swap true).request [5]).request [5, 6]) 0
      ((((smallStart .swap true).request [5]).request [5, 6]).request [1]) :=
    Continued.refl.request sevens_valid follows (by decide) (by decide) fun _ => by decide +kernel
  exact ⟨budget, later.iterate 13, (starvation_bounded sevens_valid follows).2 1 member 13 _
    (later.iterate 13) (Int.le_of_eq budget)⟩

end PagedServing.Scheduler
