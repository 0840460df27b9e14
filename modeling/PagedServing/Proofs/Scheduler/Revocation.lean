import PagedServing.Proofs.Scheduler.Sessions

/-! # Giving a request up

A request that is given up leaves its queue and the registry, and its blocks go back to the pool that
they are in, except for those that others refer to. Nothing else happens to any sequence or to the
other pool. What is heard of it is one output, in the next iteration, and giving it up again does
nothing.
-/

namespace PagedServing

namespace Cache

variable {c c' : Cache} {id : SeqId}

/-- The blocks of a sequence that no other sequence refers to, each once. Host blocks and device blocks
    of one number are different blocks. -/
def soleBlocks (c : Cache) (id : SeqId) : List Int :=
  (c.sequence id).table.eraseDups.filter fun b => ∀ other < c.sequences.nextId, other ≠ id →
    c.isSwapped other = c.isSwapped id → b ∉ (c.sequence other).table

theorem nodup_soleBlocks (c : Cache) (id : SeqId) : (c.soleBlocks id).Nodup :=
  (Pool.nodup_eraseDups _).filter _

theorem mem_soleBlocks (knows : c.Knows id) {table : SeqId → List Int}
    (same : ∀ other, table other =
      if c.isSwapped other = c.isSwapped id then (c.sequence other).table else []) (b : Int) :
    b ∈ c.soleBlocks id ↔
      b ∈ table id ∧ occurrences c.sequences.nextId table b = (table id).count b := by
  rw [occurrences_eq_count_iff table knows, soleBlocks, List.mem_filter, List.mem_eraseDups,
    decide_eq_true_eq, same id, if_pos rfl]
  refine and_congr_right fun _ => forall₂_congr fun other _ => forall_congr' fun _ => ?_
  rw [same other]
  split <;> simp [*]

/-- The device pool, and the host pool if there is one. -/
def pools (c : Cache) : Pool × Option Pool :=
  (c.device, c.host)

/-- What becomes of the two pools when the blocks of a sequence are given back: only the one that they
    are in changes. -/
structure Vacated (c c' : Cache) (id : SeqId) : Prop where
  device : c.isSwapped id = false → c'.host = c.host
  host : c.isSwapped id = true → c'.device = c.device ∧
    ∀ p, c.host = some p → ∃ p', c'.host = some p' ∧ p'.size = p.size

theorem Vacated.of_same (device : c'.device = c.device) (host : c'.host = c.host) : c.Vacated c' id :=
  ⟨fun _ => host, fun _ => ⟨device, fun p found => ⟨p, host.trans found, rfl⟩⟩⟩

theorem Vacated.congr {c'' : Cache} (vacated : c.Vacated c' id) (same : c''.pools = c'.pools) :
    c.Vacated c'' id := by
  obtain ⟨device, host⟩ := Prod.ext_iff.mp same
  simp only [pools] at device host
  refine ⟨fun away => host.trans (vacated.device away), fun swapped => ?_⟩
  rw [device, host]
  exact vacated.host swapped

theorem release_vacates (sound : c.Sound) (knows : c.Knows id)
    (computed : (c.sequence id).computed ≤ (c.sequence id).length) :
    (release id).Returns c fun _ c' => c.Vacated c' id := by
  cases place : c.isSwapped id with
  | true =>
      obtain ⟨p, host⟩ := Option.isSome_iff_exists.mp
        (sound.filed.swapped_host id (by simpa [isSwapped] using place))
      simp only [release, Action.returns_bind, Action.returns_get, place, if_true,
        Action.returns_modify, returns_onHost host, returns_edit]
      refine ((sound.balanced.host p host).release fun b => ?_).weaken ?_
      · rw [List.count_reverse, ← hostTable_of_swapped place]
        exact count_le_hostHolders knows b
      · rintro _ p' ⟨-, agrees⟩
        refine ⟨fun away => by simp [away] at place, fun _ => ⟨rfl, fun q found => ⟨p', rfl, ?_⟩⟩⟩
        obtain rfl := Option.some.inj (host.symm.trans found)
        exact agrees.size
  | false =>
      simp only [release, Action.returns_bind, Action.returns_get, place, Bool.false_eq_true, if_false,
        returns_look, returns_onDevice, returns_edit]
      refine (publish_returns sound knows computed).weaken ?_
      rintro _ c₁ ⟨published, sound₁⟩
      have knows₁ := ((published.replaced knows).knows_iff id).mpr knows
      have away := (isSwapped_congr published.swapped id).trans place
      refine (sound₁.balanced.device.release fun b => ?_).weaken fun _ p _ => ?_
      · rw [List.count_reverse, ← deviceTable_of_device away]
        exact count_le_deviceHolders knows₁ b
      · exact ⟨fun _ => published.host, fun swapped => by simp [swapped] at place⟩

section

variable (handled : c.Handled c' id) (sound : c.Sound) (bare : (c'.sequence id).table = [])
include handled sound bare

theorem freeCount_bared (away : c.isSwapped id = false) :
    c'.device.freeCount = c.device.freeCount + (c.soleBlocks id).length := by
  refine sound.balanced.device.freeCount_released handled.sound.balanced.device handled.size
    (fun b => ?_) (c.nodup_soleBlocks id) (mem_soleBlocks handled.knows fun other => ?_)
  · have change := deviceHolders_replaced handled.replaced handled.swapped b
    rwa [deviceTable_emptied handled.replaced bare, List.count_nil] at change
  · rw [away, deviceTable]
    cases c.isSwapped other <;> rfl

theorem hostFreeCount_bared (swapped : c.isSwapped id = true) (vacated : c.Vacated c' id) :
    c'.hostFreeCount = c.hostFreeCount + (c.soleBlocks id).length := by
  obtain ⟨p, host⟩ := Option.isSome_iff_exists.mp
    (sound.filed.swapped_host id (by simpa [isSwapped] using swapped))
  obtain ⟨p', host', size⟩ := (vacated.host swapped).2 p host
  rw [hostFreeCount, hostFreeCount, host, host']
  refine (sound.balanced.host p host).freeCount_released (handled.sound.balanced.host p' host') size
    (fun b => ?_) (c.nodup_soleBlocks id) (mem_soleBlocks handled.knows fun other => ?_)
  · have change := hostHolders_replaced handled.replaced handled.swapped b
    rwa [hostTable_emptied handled.replaced bare, List.count_nil] at change
  · rw [swapped, hostTable]

end

end Cache

namespace Scheduler

variable {s s' : Scheduler} {id : SeqId} {grown : List SeqId} {slack : Prop}

theorem onCache_keeps_pools {α : Type} {act : Action Cache α} (keeps : act.Keeps Cache.pools) :
    (onCache act).Keeps fun s => s.cache.pools :=
  keeps.within fun _ _ same => same

theorem edit_keeps_pools (id : SeqId) (f : Sequence → Sequence) :
    (edit id f).Keeps fun s => s.cache.pools :=
  onCache_keeps_pools (.modify fun _ => rfl)

theorem report_keeps_pools (severity : Logging.Severity) (message : String) :
    (report severity message).Keeps fun s => s.cache.pools :=
  onCache_keeps_pools (.modify fun _ => rfl)

theorem finish_vacates {reason : FinishReason} {error : Option String} (sound : s.cache.Sound)
    (knows : s.cache.Knows id)
    (computed : (s.cache.sequence id).computed ≤ (s.cache.sequence id).length) :
    (finish id reason error).Ensures s fun _ s' => s.cache.Vacated s'.cache id := by
  have baring : (if (!(s.cache.sequence id).table.isEmpty) = true then onCache (Cache.release id)
      else pure () : Action Scheduler Unit).Returns s fun _ s' => s.cache.Vacated s'.cache id := by
    split
    · rw [returns_onCache]
      exact Cache.release_vacates sound knows computed
    · exact Action.returns_pure.mpr (.of_same rfl rfl)
  simp only [finish, Action.ensures_bind, ensures_look, Action.ensures_when]
  refine baring.ensures.weaken fun _ s₁ vacated => ?_
  refine (edit_keeps_pools _ _ _).weaken fun _ s₂ same₂ => ?_
  rw [Action.ensures_modify]
  refine (report_keeps_pools _ _ _).weaken fun _ s₃ same₃ => ?_
  refine (edit_keeps_pools _ _ _).weaken fun _ s₄ same₄ => Action.ensures_pure.mpr ?_
  exact vacated.congr (same₄.trans (same₃.trans same₂))

/-- What giving up a request does. -/
structure Revoked (s s' : Scheduler) (id : SeqId) : Prop where
  /-- It leaves the queue that it stood in, -/
  stood : id ∈ s.queueOf (s.sequence id).status
  queues : ∀ status, s'.queueOf status = (s.queueOf status).erase id
  unqueued : ∀ status, id ∉ s'.queueOf status
  /-- and the registry, -/
  requests : s'.requests = s.requests.erase (s.sequence id).requestId
  unregistered : id ∉ s'.requests.values
  /-- nothing happens to any other sequence, -/
  others : ∀ other, other ≠ id → s'.sequence other = s.sequence other ∧
    s'.cache.isSwapped other = s.cache.isSwapped other
  /-- and the blocks that only it referred to become free, on the device -/
  device : s.cache.isSwapped id = false → s'.cache.host = s.cache.host ∧
    s'.cache.device.freeCount = s.cache.device.freeCount + (s.cache.soleBlocks id).length
  /-- or on the host. -/
  host : s.cache.isSwapped id = true → s'.cache.device = s.cache.device ∧
    s'.cache.hostFreeCount = s.cache.hostFreeCount + (s.cache.soleBlocks id).length
  /-- An output tells of it. -/
  pending : s'.pending = s.pending ++
    [{ requestId := (s.sequence id).requestId, reason := some .cancelled }]

/-- A registered request is found under its name. -/
theorem Orderly.found (orderly : s.Orderly [] grown slack) (member : id ∈ s.requests.values) :
    s.requests.get? (s.sequence id).requestId = some id := by
  obtain ⟨name, entry⟩ := OrderedMap.mem_values.mp member
  have own : name = (s.sequence id).requestId := orderly.registered.named _ entry
  exact (OrderedMap.get?_eq_some_iff orderly.registered.keys_nodup).mpr (own ▸ entry)

/-- A request that has left its queue and ended has been given up, once that is told. -/
theorem Ended.revoked {t : Scheduler} {journal : Logging.Journal}
    (ended : t.Ended s' id .cancelled) (orderly : s.Orderly [] grown slack)
    (member : id ∈ s.requests.values) (left : s.Left t id) (vacated : t.cache.Vacated s'.cache id)
    (pending : s'.pending = s.pending) :
    s.Revoked { s' with
      pending := s'.pending ++ [{ requestId := (s.sequence id).requestId, reason := some .cancelled }]
      cache := { s'.cache with journal } } id := by
  have handled := ended.handled
  rw [left.cache] at handled vacated
  have requests : s'.requests = s.requests.erase (s.sequence id).requestId := by
    rw [ended.requests, left.requests, left.cache]
    rfl
  have queues : ∀ status, s'.queueOf status = (s.queueOf status).erase id := by
    intro status
    rw [← left.queues]
    cases status
    case waiting => exact ended.waiting
    case running => exact ended.running
    case preempted => exact ended.preempted
    case finished => rfl
    case cancelled => rfl
  refine ⟨(orderly.stands_iff member _).mpr rfl, fun status => ?_, fun status => ?_, requests, ?_,
    fun other different => ⟨handled.others other different, handled.swapped other different⟩,
    fun away => ⟨vacated.device away, ?_⟩, fun swapped => ⟨(vacated.host swapped).1, ?_⟩, ?_⟩
  · have same := queues status
    cases status <;> exact same
  · have left : id ∉ s'.queueOf status := queues status ▸ (orderly.lined.nodup status).not_mem_erase
    cases status <;> exact left
  · show id ∉ s'.requests.values
    rw [requests]
    exact fun among => ((orderly.registered.mem_erase member id).mp among).2 rfl
  · have freed := Cache.freeCount_bared handled orderly.sound ended.table away
    exact freed
  · have freed := Cache.hostFreeCount_bared handled orderly.sound ended.table swapped vacated
    exact freed
  · exact congrArg (· ++ _) pending

theorem abort_revokes (orderly : s.Orderly [] grown slack) (member : id ∈ s.requests.values)
    (even : (s.ledger.transcript id).emitted = (s.ledger.transcript id).completion.length) :
    (abort (s.sequence id).requestId).Returns s fun output s' =>
      output = some { requestId := (s.sequence id).requestId, reason := some .cancelled } ∧
        s.Revoked s' id := by
  have knows := orderly.knows member
  simp only [abort, Action.returns_bind, Action.returns_get, orderly.found member]
  refine ((leaveQueue_returns orderly member).also (leaveQueue_keeps id s)).weaken ?_
  rintro _ s₁ ⟨left, same⟩
  have knows₁ : s₁.cache.Knows id := left.cache ▸ knows
  have computed := (orderly.staged.progressed id knows).computed
  rw [← left.cache] at computed
  refine ((finish_left orderly member left).also ((finish_heard knows₁).and
    (finish_vacates (left.cache ▸ orderly.sound) knows₁ computed))).weaken ?_
  rintro output s₂ ⟨⟨_, ended⟩, ⟨said, ledger⟩, vacated⟩
  have short : output = { requestId := (s.sequence id).requestId, reason := some .cancelled } := by
    rw [said, same]
    simp only [Ledger.output, Ledger.drafted, Transcript.fresh, List.append_nil, even, List.drop_length]
    rfl
  have pending : s₂.pending = s.pending := by
    rw [same] at ledger
    exact congrArg Ledger.pending ledger
  rw [Action.returns_modify]
  refine report_returns fun journal => Action.returns_pure.mpr ⟨congrArg some short, ?_⟩
  rw [short]
  exact ended.revoked orderly member left vacated pending

theorem abort_ignored {name : String} (absent : s.requests.get? name = none) :
    abort name s = .ok none s := by
  rw [abort, Action.bind_of_run (Action.run_get), absent]
  rfl

namespace Session

variable {ω : Type} {config : Config} {device : Device ω} {r r' : Session ω} {c : Call} {mark : Nat}

/-- The outputs that came up since a time and that nobody took yet. -/
def untaken (r : Session ω) (mark : Nat) : List Output :=
  r.scheduler.pending.drop (mark - r.handed.length)

theorem untaken_grown {more : List Output} (early : mark ≤ r.log.length)
    (handed : r'.handed = r.handed) (log : r'.log = r.log ++ more) :
    r'.untaken mark = r.untaken mark ++ more := by
  have pending : r'.scheduler.pending = r.scheduler.pending ++ more := by
    simpa [Session.log, handed] using log
  rw [Session.log, List.length_append] at early
  rw [untaken, untaken, pending, handed, List.drop_append_of_le_length (by omega)]

theorem handed_unasked (device : Device ω) (r : Session ω) (notStep : c ≠ .step)
    (notTake : c ≠ .takePending) : (r.perform device c).handed = r.handed := by
  cases c with
  | create _ => rfl
  | add id => cases run : Scheduler.add id r.scheduler <;> simp only [perform, run] <;> rfl
  | abort _ => rfl
  | releaseAll _ => rfl
  | takePending => exact absurd rfl notTake
  | step => exact absurd rfl notStep

/-- Outputs that come up between two iterations are pending, but not those of a request that goes
    on: it has turns in iterations only. -/
structure Timely (r : Session ω) : Prop where
  early : ∀ e ∈ r.taken, e.2 ≤ r.log.length
  silent : ∀ e ∈ r.taken, e.1 ∈ r.scheduler.requests.values →
    (r.untaken e.2).filter (·.requestId = r.scheduler.ledger.name e.1) = []

theorem Said.ends {turns : List Turn} {turn : Turn} (said : Said device r c turns)
    (notStep : c ≠ .step) (among : turn ∈ turns) : turn.ending ≠ none := by
  cases said with
  | aborted name =>
      obtain ⟨_, _, rfl⟩ := List.mem_map.mp among
      exact Option.some_ne_none _
  | released reason =>
      obtain ⟨_, _, rfl⟩ := List.mem_map.mp among
      exact Option.some_ne_none _
  | taken => cases among
  | refused => cases among
  | stepped => exact absurd rfl notStep

section

variable (timely : r.Timely) (enrolled : r.Enrolled) (regular : r.Regular config)
  (valid : device.Valid) (proper : c.Proper r.scheduler)
include timely enrolled regular valid proper

theorem Timely.still (notStep : c ≠ .step) (notTake : c ≠ .takePending) {e : SeqId × Nat}
    (among : e ∈ r.taken) (member : e.1 ∈ (r.perform device c).scheduler.requests.values) :
    ((r.perform device c).untaken e.2).filter
      (·.requestId = (r.perform device c).scheduler.ledger.name e.1) = [] := by
  have told := perform_told regular valid proper
  obtain ⟨more, log, -⟩ := told.speakers
  have handed := handed_unasked device r notStep notTake
  have admitted := enrolled.admitted e.1 (List.mem_map_of_mem among)
  have name : (r.perform device c).scheduler.ledger.name e.1 = r.scheduler.ledger.name e.1 :=
    congrArg Origin.requestId (told.origin (admitted.knows regular)).2
  rw [name, untaken_grown (timely.early e among) handed log, List.filter_append]
  rcases told.turn regular admitted with ⟨_, registered, more', log', silent⟩ |
    ⟨turns, turn, _, said, spoke, _, _, _, _, _, registered⟩
  · obtain rfl := List.append_cancel_left (log.symm.trans log')
    have before := registered.mp member
    rw [timely.silent e among before, silent before, List.append_nil]
  · exact absurd (registered.mp member) (said.ends notStep spoke)

theorem Timely.perform : (r.perform device c).Timely := by
  have told := perform_told regular valid proper
  constructor
  case early =>
    intro e among
    obtain ⟨more, log, -⟩ := told.speakers
    rw [log, List.length_append]
    rcases told.taken regular with ⟨taken, -⟩ | ⟨id, -, taken, -⟩ <;> rw [taken] at among
    · exact Nat.le_add_right_of_le (timely.early e among)
    · rcases List.mem_append.mp among with old | new
      · exact Nat.le_add_right_of_le (timely.early e old)
      · rw [List.mem_singleton.mp new]
        exact Nat.le_add_right ..
  case silent =>
    intro e among member
    by_cases step : c = .step
    · subst step
      have all := handed_step regular.orderly valid
      have nothing : (r.perform device .step).scheduler.pending = [] := by
        simpa [Session.log] using all
      simp [untaken, nothing]
    by_cases take : c = .takePending
    · subst take
      have nothing : (r.perform device .takePending).scheduler.pending = [] := rfl
      simp [untaken, nothing]
    rcases told.taken regular with ⟨taken, -⟩ | ⟨id, -, taken, sameLog, -⟩
    · exact timely.still enrolled regular valid proper step take (taken ▸ among) member
    · rw [taken] at among
      rcases List.mem_append.mp among with before | new
      · exact timely.still enrolled regular valid proper step take before member
      · -- what is pending came up before it was taken in
        have handed := handed_unasked device r step take
        have all : r.log.length - r.handed.length = r.scheduler.pending.length := by
          simp [Session.log]
        have same : (r.perform device c).scheduler.pending = r.scheduler.pending := by
          simpa [Session.log, handed] using sameLog
        rw [List.mem_singleton.mp new, untaken, handed, all, same, List.drop_length]
        rfl

end

theorem Leads.timely {may : Session ω → Call → Prop} (leads : Leads device may r r')
    (regular : r.Regular config) (valid : device.Valid) (enrolled : r.Enrolled) (timely : r.Timely) :
    r'.Timely := by
  induction leads with
  | refl => exact timely
  | call before proper _ ih =>
      exact ih.perform (before.enrolled regular valid enrolled) (before.regular regular valid).1 valid
        proper

/-- The calls that may be made before the next iteration: nobody takes what is pending, and the name
    is not used again. -/
def Between (name : String) (r : Session ω) : Call → Prop
  | .add id => (r.scheduler.sequence id).requestId ≠ name
  | .takePending => False
  | .step => False
  | _ => True

instance (name : String) (r : Session ω) : (c : Call) → Decidable (r.Between name c)
  | .create _ => isTrue trivial
  | .add id => inferInstanceAs (Decidable ((r.scheduler.sequence id).requestId ≠ name))
  | .abort _ => isTrue trivial
  | .releaseAll _ => isTrue trivial
  | .takePending => isFalse not_false
  | .step => isFalse not_false

/-- One output is all that came up under a name since a time and that nobody took yet, and nobody
    goes by that name now. -/
structure Awaited (r : Session ω) (name : String) (output : Output) (mark : Nat) : Prop where
  early : mark ≤ r.log.length
  own : (r.untaken mark).filter (·.requestId = name) = [output]
  alone : ∀ other ∈ r.scheduler.requests.values, r.scheduler.ledger.name other ≠ name

variable {name : String} {output : Output}

theorem Awaited.silent (awaited : r.Awaited name output mark) {more : List Output}
    (speakers : ∀ o ∈ more, ∃ id ∈ r.scheduler.requests.values,
      r.scheduler.ledger.name id = o.requestId) : more.filter (·.requestId = name) = [] := by
  refine List.filter_eq_nil_iff.mpr fun o among own => ?_
  obtain ⟨id, member, spoken⟩ := speakers o among
  exact awaited.alone id member (spoken.trans (of_decide_eq_true own))

theorem Awaited.perform (awaited : r.Awaited name output mark) (regular : r.Regular config)
    (valid : device.Valid) (proper : c.Proper r.scheduler) (between : r.Between name c) :
    (r.perform device c).Awaited name output mark := by
  have notStep : c ≠ .step := by
    rintro rfl
    exact between
  have notTake : c ≠ .takePending := by
    rintro rfl
    exact between
  have told := perform_told regular valid proper
  obtain ⟨more, log, speakers⟩ := told.speakers
  have handed := handed_unasked device r notStep notTake
  have named : ∀ id, r.scheduler.cache.Knows id →
      (r.perform device c).scheduler.ledger.name id = r.scheduler.ledger.name id :=
    fun id knows => congrArg Origin.requestId (told.origin knows).2
  refine ⟨?_, ?_, fun other member => ?_⟩
  · rw [log, List.length_append]
    exact Nat.le_add_right_of_le awaited.early
  · rw [untaken_grown awaited.early handed log, List.filter_append, awaited.silent speakers,
      List.append_nil, awaited.own]
  · rcases told.taken regular with ⟨-, fewer⟩ | ⟨id, rfl, -, -, transcript, requests, -⟩
    · have before := fewer other member
      rw [named other (regular.orderly.knows before)]
      exact awaited.alone other before
    · have same : (r.perform device (.add id)).scheduler.ledger.name other =
          r.scheduler.ledger.name other := by rw [Ledger.name, transcript, Ledger.name]
      rw [same]
      rw [requests, List.mem_append, List.mem_singleton] at member
      rcases member with before | rfl
      · exact awaited.alone other before
      · exact between

theorem Awaited.leads (awaited : r.Awaited name output mark)
    (leads : Leads device (Between name) r r') (regular : r.Regular config) (valid : device.Valid) :
    r'.Awaited name output mark := by
  induction leads with
  | refl => exact awaited
  | call before proper between ih =>
      exact ih.perform (before.regular regular valid).1 valid proper between

theorem Awaited.step (awaited : r.Awaited name output mark) (regular : r.Regular config)
    (valid : device.Valid) : (Driven.step (some device)).Returns r.driven fun result _ =>
      (result.outputs.drop (mark - r.handed.length)).filter (·.requestId = name) = [output] := by
  refine (Driven.step_returns regular.orderly valid).run.weaken ?_
  rintro result d ⟨run, -⟩
  have told := perform_told (c := .step) regular valid trivial
  obtain ⟨more, log, speakers⟩ := told.speakers
  have handed : (r.perform device .step).handed = r.handed ++ result.outputs := by
    rw [Session.perform, run]
  have all : r.handed ++ result.outputs = r.handed ++ (r.scheduler.pending ++ more) := by
    rw [← handed, handed_step regular.orderly valid, log, Session.log, List.append_assoc]
  have outputs : result.outputs = r.scheduler.pending ++ more := List.append_cancel_left all
  have early := awaited.early
  rw [Session.log, List.length_append] at early
  have own := awaited.own
  rw [untaken] at own
  rw [outputs, List.drop_append_of_le_length (by omega), List.filter_append, own,
    awaited.silent speakers, List.append_nil]

/-- What comes of giving a live request up: its output, the scheduler `s'` in which it is no more, and
    what is heard of it. -/
structure GivenUp (device : Device ω) (r : Session ω) (id : SeqId) (output : Option Output)
    (s' : Scheduler) : Prop where
  output : output = some { requestId := (r.scheduler.sequence id).requestId, reason := some .cancelled }
  revoked : r.scheduler.Revoked s' id
  again : Scheduler.abort (r.scheduler.sequence id).requestId s' = .ok none s'
  /-- Of what came up since it was taken in, the next iteration hands over this one output of it. -/
  delivered : ∀ r', Leads device (Between (r.scheduler.sequence id).requestId) (r.become s') r' →
    (Driven.step (some device)).Returns r'.driven fun result _ => ∀ mark, (id, mark) ∈ r.taken →
      (result.outputs.drop (mark - r'.handed.length)).filter
        (·.requestId = (r.scheduler.sequence id).requestId) =
          [{ requestId := (r.scheduler.sequence id).requestId, reason := some .cancelled }]

theorem Timely.awaited {s' : Scheduler} (timely : r.Timely) (regular : r.Regular config)
    (member : id ∈ r.scheduler.requests.values) (taken : (id, mark) ∈ r.taken)
    (revoked : r.scheduler.Revoked s' id) : (r.become s').Awaited (r.scheduler.sequence id).requestId
      { requestId := (r.scheduler.sequence id).requestId, reason := some .cancelled } mark := by
  have log : (r.become s').log = r.log ++
      [{ requestId := (r.scheduler.sequence id).requestId, reason := some .cancelled }] := by
    rw [Session.log, Session.log, List.append_assoc, ← revoked.pending]
    rfl
  have early := timely.early _ taken
  have silent := timely.silent _ taken member
  refine ⟨?_, ?_, fun other among same => ?_⟩
  · rw [log, List.length_append]
    exact Nat.le_add_right_of_le early
  · have grown : (r.become s').untaken mark = r.untaken mark ++ _ := untaken_grown early rfl log
    have name : (r.scheduler.sequence id).requestId = r.scheduler.ledger.name id := rfl
    rw [grown, List.filter_append, name, silent]
    simp
  · have before : other ∈ r.scheduler.requests.values ∧ other ≠ id := by
      rw [← regular.orderly.registered.mem_erase member]
      exact revoked.requests ▸ among
    have kept : (s'.sequence other).requestId = (r.scheduler.sequence other).requestId :=
      congrArg Sequence.requestId (revoked.others other before.2).1
    exact before.2 (regular.orderly.named.unique before.1 member (kept.symm.trans same))

theorem opened_timely (config : Config) (threshold : Int) (w : ω) :
    (opened config threshold w).Timely where
  early _ none := absurd none List.not_mem_nil
  silent _ none := absurd none List.not_mem_nil

/-- Whatever was called, and whatever the device answered: every live request is given up and nothing
    else changes, the next iteration hands over one output that tells so, and to give up a name under
    which nobody lives does nothing. -/
theorem abort_exact (valid : device.Valid) {may : Session ω → Call → Prop} {threshold : Int} {w : ω}
    (run : Leads device may (opened config threshold w) r) :
    (∀ id, r.TookIn id → (r.scheduler.sequence id).isFinished = false →
      (Scheduler.abort (r.scheduler.sequence id).requestId).Returns r.scheduler
        (r.GivenUp device id)) ∧
    ∀ name, (∀ id, r.TookIn id → (r.scheduler.sequence id).requestId = name →
        (r.scheduler.sequence id).isFinished = true) →
      Scheduler.abort name r.scheduler = .ok none r.scheduler := by
  have started := opened_regular config threshold w
  have regular := (run.regular started valid).1
  have enrolled := run.enrolled started valid (opened_enrolled config threshold w)
  have timely := run.timely started valid (opened_enrolled config threshold w)
    (opened_timely config threshold w)
  constructor
  · intro id tookIn live
    have member := (enrolled.admitted id tookIn).resolve_right (by simp [live])
    refine (abort_revokes regular.orderly member (regular.even id)).run.weaken ?_
    rintro output s' ⟨ran, said, revoked⟩
    refine ⟨said, revoked, abort_ignored (by simp [revoked.requests]), fun r' between => ?_⟩
    have become : r.perform device (.abort (r.scheduler.sequence id).requestId) = r.become s' := by
      rw [perform, Action.after, ran]
    have regular' : (r.become s').Regular config :=
      become ▸ (perform_onward (c := .abort _) regular valid trivial).1
    have regular'' := (between.regular regular' valid).1
    refine (Driven.step_returns regular''.orderly valid).run.weaken ?_
    rintro result d ⟨stepped, -⟩ mark taken
    have awaited := (timely.awaited regular member taken revoked).leads between regular' valid
    exact (awaited.step regular'' valid).of_run stepped
  · intro name finished
    refine abort_ignored ?_
    by_contra present
    obtain ⟨id, found⟩ := Option.ne_none_iff_exists'.mp present
    have member := OrderedMap.mem_values_of_get? found
    have own : name = (r.scheduler.sequence id).requestId :=
      regular.orderly.registered.named _ (OrderedMap.mem_of_get? found)
    exact regular.orderly.unregistered (finished id (enrolled.requests id member) own.symm) member

/-- The second of two requests shares two of its four blocks with the first. It is given up, and
    another is taken in before the next iteration. -/
theorem abort_exact_sharing :
    let calls := [.create { prompt := [5, 6], blockSize := 1 }, .add 0, .step,
      .create { prompt := [5, 6, 4], blockSize := 1 }, .add 1, .step]
    let more := [.create { prompt := [3], blockSize := 1 }, .add 2]
    let r := (opened (smallConfig .swap true) 20 ()).performAll sevens calls
    let s' := (Scheduler.abort "1").after r.scheduler
    let r' := (r.become s').performAll sevens more
    Allowed sevens (fun _ _ => True) (opened (smallConfig .swap true) 20 ()) calls ∧
      Allowed sevens (Between "1") (r.become s') more ∧
      (r.scheduler.sequence 0).table = [0, 1, 2, 4] ∧ (r.scheduler.sequence 1).table = [0, 1, 3, 5] ∧
      s'.cache.device.freeCount = r.scheduler.cache.device.freeCount + 2 ∧
      r.scheduler.Revoked s' 1 ∧
      (Driven.step (some sevens)).Returns r'.driven (fun result _ =>
        result.outputs.filter (·.requestId = "1") = [{ requestId := "1", reason := some .cancelled }]) ∧
      Scheduler.abort "2" r.scheduler = .ok none r.scheduler := by
  intro calls more r s' r'
  have made : Allowed sevens (fun _ _ => True) (opened (smallConfig .swap true) 20 ()) calls := by
    decide +kernel
  have made' : Allowed sevens (Between "1") (r.become s') more := by decide +kernel
  obtain ⟨exact, ignored⟩ := abort_exact sevens_valid made.leads
  have name : (r.scheduler.sequence 1).requestId = "1" := by decide +kernel
  obtain ⟨_, given⟩ := (exact 1 (by decide +kernel) (by decide +kernel)).after
  have delivered := given.delivered r'
  rw [name] at given delivered
  have unknown : ∀ id ∈ r.taken.map Prod.fst, (r.scheduler.sequence id).requestId ≠ "2" := by
    decide +kernel
  refine ⟨made, made', by decide +kernel, by decide +kernel, ?_, given.revoked, ?_,
    ignored "2" fun id tookIn same => absurd same (unknown id tookIn)⟩
  · have freed := (given.revoked.device (by decide +kernel)).2
    have two : (r.scheduler.cache.soleBlocks 1).length = 2 := by decide +kernel
    rwa [two] at freed
  · refine (delivered made'.leads).weaken fun result _ own => ?_
    have all : 1 - r'.handed.length = 0 := by decide +kernel
    simpa only [all, List.drop_zero] using own 1 (by decide +kernel)

end Session

end Scheduler

end PagedServing
