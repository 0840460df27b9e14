import PagedServing.Proofs.OrderedMap
import PagedServing.Proofs.Scheduler.Orderly

/-! # Leaving and entering the queues

A sequence leaves its queue before an operation works on it, and stands in the queue of its
new status afterwards, unless it has ended.
-/

namespace PagedServing.Scheduler

variable {s s' : Scheduler} {id : SeqId} {aside grown : List SeqId} {slack : Prop}
  {status status' : Status}

namespace Lined

variable (lined : s.Lined aside)
include lined

theorem waiting (id : SeqId) (member : id ∈ s.waiting) :
    s.cache.Knows id ∧ (s.cache.sequence id).status = .waiting :=
  lined.stands .waiting id member

theorem running (id : SeqId) (member : id ∈ s.running) :
    s.cache.Knows id ∧ (s.cache.sequence id).status = .running :=
  lined.stands .running id member

theorem preempted (id : SeqId) (member : id ∈ s.preempted) :
    s.cache.Knows id ∧ (s.cache.sequence id).status = .preempted :=
  lined.stands .preempted id member

theorem queued_running (id : SeqId) (knows : s.cache.Knows id)
    (status : (s.cache.sequence id).status = .running) (outside : id ∉ aside) : id ∈ s.running :=
  lined.queued .running id knows status (Or.inl rfl) outside

theorem queued_preempted (id : SeqId) (knows : s.cache.Knows id)
    (status : (s.cache.sequence id).status = .preempted) (outside : id ∉ aside) :
    id ∈ s.preempted :=
  lined.queued .preempted id knows status (Or.inr rfl) outside

theorem only (member : id ∈ s.queueOf status) (member' : id ∈ s.queueOf status') :
    status' = status :=
  (lined.stands status' id member').2.symm.trans (lined.stands status id member).2

theorem transfer (queues : ∀ status, s'.queueOf status = s.queueOf status)
    (knows : ∀ id, s.cache.Knows id → s'.cache.Knows id)
    (same : ∀ id, s.cache.Knows id → id ∉ aside →
      (s'.cache.sequence id).status = (s.cache.sequence id).status)
    (new : ∀ id, s'.cache.Knows id → s.cache.Knows id ∨ (s'.cache.sequence id).status = .waiting) :
    s'.Lined aside where
  nodup status := queues status ▸ lined.nodup status
  stands status id member := by
    rw [queues] at member
    obtain ⟨known, stands⟩ := lined.stands status id member
    have outside : id ∉ aside := fun among => (lined.apart id among).2 status member
    exact ⟨knows id known, (same id known outside).trans stands⟩
  apart id among := by
    obtain ⟨known, nowhere⟩ := lined.apart id among
    refine ⟨knows id known, fun status => ?_⟩
    rw [queues]
    exact nowhere status
  queued status id known stands live outside := by
    rw [queues]
    rcases new id known with known | waits
    · exact lined.queued status id known ((same id known outside).symm.trans stands) live outside
    · obtain rfl := waits.symm.trans stands
      rcases live with live | live <;> cases live

theorem congr (cache : s'.cache = s.cache) (queues : ∀ status, s'.queueOf status = s.queueOf status) :
    s'.Lined aside := by
  refine lined.transfer queues ?_ ?_ ?_ <;> rw [cache]
  · exact fun _ known => known
  · exact fun _ _ _ => rfl
  · exact fun _ known => Or.inl known

end Lined

/-- The queues are the same but for `id`, which stands in none. -/
structure Left (s s' : Scheduler) (id : SeqId) : Prop where
  cache : s'.cache = s.cache
  config : s'.config = s.config
  requests : s'.requests = s.requests
  queues : ∀ status, s'.queueOf status = (s.queueOf status).erase id

/-- The scheduler with another queue for one status. -/
def withQueue (s : Scheduler) : Status → List SeqId → Scheduler
  | .waiting, queue => { s with waiting := queue }
  | .running, queue => { s with running := queue }
  | .preempted, queue => { s with preempted := queue }
  | .finished, _ => s
  | .cancelled, _ => s

section WithQueue

variable (s) (status) (queue : List SeqId)

theorem withQueue_cache : (s.withQueue status queue).cache = s.cache := by
  cases status <;> rfl

theorem withQueue_config : (s.withQueue status queue).config = s.config := by
  cases status <;> rfl

theorem withQueue_requests : (s.withQueue status queue).requests = s.requests := by
  cases status <;> rfl

theorem queueOf_withQueue (live : status.isTerminal = false) (other : Status) :
    (s.withQueue status queue).queueOf other = if other = status then queue else s.queueOf other := by
  cases status <;> cases other <;> first | rfl | cases live

end WithQueue

theorem live_of_mem (member : id ∈ s.queueOf status) : status.isTerminal = false := by
  cases status <;> first | rfl | cases member

/-- Whoever leaves the queue of its status stands in none. -/
theorem Lined.leaves (lined : s.Lined []) (status : Status) (member : id ∈ s.queueOf status)
    {rest : List SeqId} (erased : rest = (s.queueOf status).erase id) :
    s.Left (s.withQueue status rest) id where
  cache := s.withQueue_cache status rest
  config := s.withQueue_config status rest
  requests := s.withQueue_requests status rest
  queues other := by
    rw [queueOf_withQueue s status rest (live_of_mem member)]
    split
    · rename_i same
      rw [same, erased]
    · rename_i different
      exact (List.erase_of_not_mem fun among => different (lined.only member among)).symm

theorem Lined.left (lined : s.Lined []) (knows : s.cache.Knows id) (left : s.Left s' id) :
    s'.Lined [id] where
  nodup status := by
    rw [left.queues]
    exact (lined.nodup status).erase id
  stands status other member := by
    rw [left.queues] at member
    rw [left.cache]
    exact lined.stands status other (List.mem_of_mem_erase member)
  apart other same := by
    obtain rfl := List.mem_singleton.mp same
    refine ⟨left.cache ▸ knows, fun status => ?_⟩
    rw [left.queues]
    exact (lined.nodup status).not_mem_erase
  queued status other known stands live outside := by
    rw [left.cache] at known stands
    rw [left.queues]
    exact (List.mem_erase_of_ne (by simpa using outside)).mpr
      (lined.queued status other known stands live List.not_mem_nil)

theorem Registered.left (registered : s.Registered []) (lined : s.Lined [])
    (member : id ∈ s.requests.values) (left : s.Left s' id) : s'.Registered [id] where
  keys_nodup := left.requests ▸ registered.keys_nodup
  values_nodup := left.requests ▸ registered.values_nodup
  mem_values other := by
    rw [left.requests]
    simp only [left.queues, (lined.nodup _).mem_erase_iff, List.mem_singleton]
    by_cases same : other = id
    · simp [same, member]
    · rw [registered.mem_values]
      simp [same]
  named := by
    rw [left.requests, left.cache]
    exact registered.named
  short := by
    rw [left.requests, left.cache, left.config]
    exact fun other member _ => registered.short other member List.not_mem_nil

theorem Orderly.knows (orderly : s.Orderly aside grown slack) (member : id ∈ s.requests.values) :
    s.cache.Knows id := by
  rcases (orderly.registered.mem_values id).mp member with ⟨status, queued⟩ | among
  · exact (orderly.lined.stands status id queued).1
  · exact (orderly.lined.apart id among).1

theorem Orderly.mem_values (orderly : s.Orderly aside grown slack) (status : Status)
    (member : id ∈ s.queueOf status) : id ∈ s.requests.values :=
  (orderly.registered.mem_values id).mpr (Or.inl ⟨status, member⟩)

theorem Configured.congr (configured : s.Configured) (cache : s'.cache = s.cache)
    (config : s'.config = s.config) : s'.Configured where
  blockSize := by rw [cache, config, configured.blockSize]
  sharing := by rw [cache, config, configured.sharing]
  size := by rw [cache, config, configured.size]
  unswapped := by
    rw [cache, config]
    exact configured.unswapped

theorem Orderly.left (orderly : s.Orderly [] grown slack) (member : id ∈ s.requests.values)
    (left : s.Left s' id) : s'.Orderly [id] grown slack where
  sound := left.cache ▸ orderly.sound
  staged := by
    rw [left.cache]
    exact ⟨fun other knows _ => orderly.staged.placed other knows List.not_mem_nil,
      orderly.staged.progressed⟩
  lined := orderly.lined.left (orderly.knows member) left
  registered := orderly.registered.left orderly.lined member left
  configured := orderly.configured.congr left.cache left.config

/-- Only work on the cache was done. -/
structure Unmoved (s s' : Scheduler) : Prop where
  config : s'.config = s.config
  requests : s'.requests = s.requests
  queues : ∀ status, s'.queueOf status = s.queueOf status

theorem Registered.transfer (registered : s.Registered aside) (unmoved : s.Unmoved s')
    (names : ∀ id ∈ s.requests.values,
      (s'.cache.sequence id).requestId = (s.cache.sequence id).requestId)
    (lengths : ∀ id ∈ s.requests.values, id ∉ aside →
      (s'.cache.sequence id).length = (s.cache.sequence id).length) : s'.Registered aside where
  keys_nodup := unmoved.requests ▸ registered.keys_nodup
  values_nodup := unmoved.requests ▸ registered.values_nodup
  mem_values := by
    simp only [unmoved.requests, unmoved.queues]
    exact registered.mem_values
  named e member := by
    rw [unmoved.requests] at member
    rw [registered.named e member, names e.2 (List.mem_map_of_mem member)]
  short id member outside := by
    rw [unmoved.requests] at member
    rw [lengths id member outside, unmoved.config]
    exact registered.short id member outside

/-- Nothing else of a scheduler counts. -/
theorem Orderly.unmoved (orderly : s.Orderly aside grown slack) (cache : s'.cache = s.cache)
    (unmoved : s.Unmoved s') : s'.Orderly aside grown slack where
  sound := cache ▸ orderly.sound
  staged := cache ▸ orderly.staged
  lined := orderly.lined.congr cache unmoved.queues
  registered := by
    refine orderly.registered.transfer unmoved ?_ ?_ <;> rw [cache]
    · exact fun _ _ => rfl
    · exact fun _ _ _ => rfl
  configured := orderly.configured.congr cache unmoved.config

theorem Orderly.reported (orderly : s.Orderly aside grown slack) (journal : Logging.Journal) :
    { s with cache := { s.cache with journal } }.Orderly aside grown slack where
  sound := orderly.sound.journal journal
  staged := by
    refine ⟨fun id knows outside => ?_, orderly.staged.progressed⟩
    have placed := orderly.staged.placed id knows outside
    exact ⟨placed.running, placed.swapped, placed.bare⟩
  lined := orderly.lined.transfer (fun _ => rfl) (fun _ knows => knows) (fun _ _ _ => rfl)
    fun _ knows => Or.inl knows
  registered := orderly.registered.transfer ⟨rfl, rfl, fun _ => rfl⟩ (fun _ _ => rfl)
    fun _ _ _ => rfl
  configured := ⟨orderly.configured.blockSize, orderly.configured.sharing, orderly.configured.size,
    orderly.configured.unswapped⟩

theorem Handled.placed {c c' : Cache} (handled : c.Handled c' id) {other : SeqId} {ahead : Nat}
    (different : other ≠ id) (placed : c.Placed other ahead slack) : c'.Placed other ahead slack :=
  placed.congr (handled.others other different) (handled.swapped other different)

theorem Staged.handled {c c' : Cache} (staged : c.Staged aside grown slack) (handled : c.Handled c' id)
    (member : id ∈ aside) (progressed : Cache.Progressed (c'.sequence id)) :
    c'.Staged aside grown slack where
  placed other knows outside := by
    have different : other ≠ id := fun same => outside (same ▸ member)
    exact Handled.placed handled different
      (staged.placed other ((handled.knows_iff other).mp knows) outside)
  progressed other knows := by
    by_cases same : other = id
    · exact same ▸ progressed
    · rw [handled.others other same]
      exact staged.progressed other ((handled.knows_iff other).mp knows)

theorem Configured.handled (configured : s.Configured) (handled : s.cache.Handled s'.cache id)
    (config : s'.config = s.config)
    (unswapped : s.config.preemption = .recompute → s'.cache.isSwapped id = false) :
    s'.Configured where
  blockSize := by rw [handled.blockSize, config, configured.blockSize]
  sharing := by rw [handled.sharing, config, configured.sharing]
  size := by rw [handled.size, config, configured.size]
  unswapped recompute other := by
    rw [config] at recompute
    by_cases same : other = id
    · exact same ▸ unswapped recompute
    · rw [handled.swapped other same]
      exact configured.unswapped recompute other

/-- A sequence that is set aside can be worked on. -/
theorem Orderly.worked (orderly : s.Orderly [id] grown slack) (handled : s.cache.Handled s'.cache id)
    (unmoved : s.Unmoved s') (progressed : Cache.Progressed (s'.cache.sequence id))
    (unswapped : s.config.preemption = .recompute → s'.cache.isSwapped id = false) :
    s'.Orderly [id] grown slack := by
  have others : ∀ other, other ∉ [id] → s'.cache.sequence other = s.cache.sequence other :=
    fun other outside => handled.others other (by simpa using outside)
  constructor
  case sound => exact handled.sound
  case staged => exact Staged.handled orderly.staged handled List.mem_cons_self progressed
  case lined =>
    refine orderly.lined.transfer unmoved.queues (fun other => (handled.knows_iff other).mpr) ?_
      fun other knows => Or.inl ((handled.knows_iff other).mp knows)
    intro other _ outside
    rw [others other outside]
  case registered =>
    refine orderly.registered.transfer unmoved (fun other _ => ?_) fun other _ outside => ?_
    · by_cases same : other = id
      · rw [same, handled.name]
      · rw [handled.others other same]
    · rw [others other outside]
  case configured => exact orderly.configured.handled handled unmoved.config unswapped

/-- The sequence `id` stands in the queue of `status` besides those that stood there. -/
structure Joined (s s' : Scheduler) (id : SeqId) (status : Status) : Prop where
  cache : s'.cache = s.cache
  config : s'.config = s.config
  requests : s'.requests = s.requests
  queues : ∀ other, (s'.queueOf other).Perm
    (if other = status then id :: s.queueOf other else s.queueOf other)

theorem Joined.mem_iff (joined : s.Joined s' id status) (status' : Status) (other : SeqId) :
    other ∈ s'.queueOf status' ↔ other ∈ s.queueOf status' ∨ status' = status ∧ other = id := by
  rw [(joined.queues status').mem_iff]
  split
  · rename_i same
    simp [same, or_comm]
  · rename_i different
    simp [different]

theorem Lined.joined (lined : s.Lined [id]) (joined : s.Joined s' id (s.cache.sequence id).status) :
    s'.Lined [] := by
  obtain ⟨knows, nowhere⟩ := lined.apart id List.mem_cons_self
  constructor
  case nodup =>
    intro status
    rw [(joined.queues status).nodup_iff]
    split
    · exact List.nodup_cons.mpr ⟨nowhere status, lined.nodup status⟩
    · exact lined.nodup status
  case stands =>
    intro status other member
    rw [joined.cache]
    rcases (joined.mem_iff status other).mp member with old | ⟨same, rfl⟩
    · exact lined.stands status other old
    · exact ⟨knows, same.symm⟩
  case apart => exact fun _ none => absurd none List.not_mem_nil
  case queued =>
    intro status other known stands live _
    rw [joined.cache] at known stands
    rw [joined.mem_iff]
    by_cases same : other = id
    · subst same
      exact Or.inr ⟨stands.symm, rfl⟩
    · exact Or.inl (lined.queued status other known stands live (by simpa using same))

theorem Registered.joined (registered : s.Registered [id])
    (joined : s.Joined s' id (s.cache.sequence id).status)
    (short : (s.cache.sequence id).length < s.config.maxLength) : s'.Registered [] where
  keys_nodup := joined.requests ▸ registered.keys_nodup
  values_nodup := joined.requests ▸ registered.values_nodup
  mem_values other := by
    rw [joined.requests, registered.mem_values]
    simp only [joined.mem_iff, exists_or, exists_eq_left, List.mem_singleton, List.not_mem_nil,
      or_false]
  named := by
    rw [joined.requests, joined.cache]
    exact registered.named
  short other member _ := by
    rw [joined.requests] at member
    rw [joined.cache, joined.config]
    by_cases same : other = id
    · exact same ▸ short
    · exact registered.short other member (by simpa using same)

/-- Whoever is set aside has the blocks that its status calls for, if that is known. -/
theorem Staged.regained {c : Cache} (staged : c.Staged [id] grown slack)
    (placed : c.Placed id (if id ∈ grown then 1 else 0) slack) : c.Staged [] grown slack where
  placed other knows _ := by
    by_cases same : other = id
    · exact same ▸ placed
    · exact staged.placed other knows (by simpa using same)
  progressed := staged.progressed

theorem Orderly.joined (orderly : s.Orderly [id] grown slack)
    (joined : s.Joined s' id (s.cache.sequence id).status)
    (placed : s.cache.Placed id (if id ∈ grown then 1 else 0) slack)
    (short : (s.cache.sequence id).length < s.config.maxLength) : s'.Orderly [] grown slack where
  sound := joined.cache ▸ orderly.sound
  staged := joined.cache ▸ Staged.regained orderly.staged placed
  lined := orderly.lined.joined joined
  registered := orderly.registered.joined joined short
  configured := orderly.configured.congr joined.cache joined.config

theorem withQueue_joined (live : status.isTerminal = false) {queue : List SeqId}
    (perm : queue.Perm (id :: s.queueOf status)) : s.Joined (s.withQueue status queue) id status where
  cache := s.withQueue_cache status queue
  config := s.withQueue_config status queue
  requests := s.withQueue_requests status queue
  queues other := by
    rw [queueOf_withQueue s status queue live]
    split
    · rename_i same
      exact same ▸ perm
    · exact .refl _

theorem Orderly.linedUp (orderly : s.Orderly [id] grown slack) (live : status.isTerminal = false)
    (stands : (s.cache.sequence id).status = status) {queue : List SeqId}
    (perm : queue.Perm (id :: s.queueOf status))
    (placed : s.cache.Placed id (if id ∈ grown then 1 else 0) slack)
    (short : (s.cache.sequence id).length < s.config.maxLength) :
    (s.withQueue status queue).Orderly [] grown slack :=
  orderly.joined (stands ▸ withQueue_joined live perm) placed short

/-- Erasing the name of a request leaves the other requests. -/
theorem Registered.mem_erase (registered : s.Registered aside) (member : id ∈ s.requests.values)
    (other : SeqId) :
    other ∈ (s.requests.erase (s.cache.sequence id).requestId).values ↔
      other ∈ s.requests.values ∧ other ≠ id := by
  obtain ⟨name, entry⟩ := OrderedMap.mem_values.mp member
  have own : name = (s.cache.sequence id).requestId := registered.named _ entry
  rw [OrderedMap.mem_values, OrderedMap.mem_values]
  constructor
  · rintro ⟨k, member⟩
    obtain ⟨before, different⟩ := OrderedMap.mem_erase_entries.mp member
    refine ⟨⟨k, before⟩, fun same => different ?_⟩
    rw [registered.named _ before, same]
  · rintro ⟨⟨k, before⟩, different⟩
    refine ⟨k, OrderedMap.mem_erase_entries.mpr ⟨before, fun same => different ?_⟩⟩
    obtain rfl : k = name := same.trans own.symm
    exact OrderedMap.value_unique registered.keys_nodup before entry

theorem Lined.retired (lined : s.Lined [id])
    (terminal : (s.cache.sequence id).status.isTerminal = true) : s.Lined [] where
  nodup := lined.nodup
  stands := lined.stands
  apart _ none := absurd none List.not_mem_nil
  queued status other knows stands live _ := by
    refine lined.queued status other knows stands live fun same => ?_
    rw [List.mem_singleton.mp same] at stands
    rw [stands] at terminal
    rcases live with rfl | rfl <;> cases terminal

theorem Registered.retired (registered : s.Registered [id]) (lined : s.Lined [id])
    (cache : s'.cache = s.cache) (config : s'.config = s.config)
    (requests : s'.requests = s.requests.erase (s.cache.sequence id).requestId)
    (queues : ∀ status, s'.queueOf status = s.queueOf status) : s'.Registered [] := by
  have kept : ∀ other, other ∈ s'.requests.values ↔ other ∈ s.requests.values ∧ other ≠ id := by
    rw [requests]
    exact registered.mem_erase ((registered.mem_values id).mpr (by simp))
  constructor
  case keys_nodup => exact requests ▸ OrderedMap.keys_erase_nodup registered.keys_nodup _
  case values_nodup => exact requests ▸ OrderedMap.values_erase_nodup registered.values_nodup _
  case mem_values =>
    intro other
    rw [kept, registered.mem_values]
    simp only [queues, List.mem_singleton, List.not_mem_nil, or_false]
    constructor
    · exact fun both => both.1.resolve_right both.2
    · rintro ⟨status, queued⟩
      refine ⟨Or.inl ⟨status, queued⟩, fun same => ?_⟩
      exact (lined.apart id List.mem_cons_self).2 status (same ▸ queued)
  case named =>
    intro e member
    rw [requests] at member
    rw [cache]
    exact registered.named e (OrderedMap.mem_erase_entries.mp member).1
  case short =>
    intro other member _
    obtain ⟨before, different⟩ := (kept other).mp member
    rw [cache, config]
    exact registered.short other before (by simpa using different)

theorem Orderly.retired (orderly : s.Orderly [id] grown slack) (cache : s'.cache = s.cache)
    (config : s'.config = s.config)
    (requests : s'.requests = s.requests.erase (s.cache.sequence id).requestId)
    (queues : ∀ status, s'.queueOf status = s.queueOf status)
    (terminal : (s.cache.sequence id).status.isTerminal = true)
    (placed : s.cache.Placed id (if id ∈ grown then 1 else 0) slack) : s'.Orderly [] grown slack where
  sound := cache ▸ orderly.sound
  staged := cache ▸ Staged.regained orderly.staged placed
  lined := (orderly.lined.retired terminal).congr cache queues
  registered := orderly.registered.retired orderly.lined cache config requests queues
  configured := orderly.configured.congr cache config

theorem Lined.secluded (lined : s.Lined []) (knows : s.cache.Knows id)
    (nowhere : ∀ status, id ∉ s.queueOf status) : s.Lined [id] where
  nodup := lined.nodup
  stands := lined.stands
  apart other same := by
    obtain rfl := List.mem_singleton.mp same
    exact ⟨knows, nowhere⟩
  queued status other known stands live _ :=
    lined.queued status other known stands live List.not_mem_nil

theorem Registered.entered (registered : s.Registered [])
    (nowhere : ∀ status, id ∉ s.queueOf status)
    (untaken : s.requests.contains (s.cache.sequence id).requestId = false)
    (cache : s'.cache = s.cache) (config : s'.config = s.config)
    (requests : s'.requests = s.requests.insert (s.cache.sequence id).requestId id)
    (queues : ∀ status, s'.queueOf status = s.queueOf status) : s'.Registered [id] := by
  have entries : s'.requests.entries = s.requests.entries ++ [((s.cache.sequence id).requestId, id)] :=
    requests ▸ OrderedMap.insert_new untaken id
  have values : s'.requests.values = s.requests.values ++ [id] := by
    rw [OrderedMap.values, entries, List.map_append]
    rfl
  have unregistered : id ∉ s.requests.values := fun member => by
    rcases (registered.mem_values id).mp member with ⟨status, queued⟩ | none
    · exact nowhere status queued
    · cases none
  constructor
  case keys_nodup =>
    have absent : (s.cache.sequence id).requestId ∉ s.requests.keys := by
      intro member
      obtain ⟨e, entry, name⟩ := List.mem_map.mp member
      simp only [OrderedMap.contains, List.any_eq_false, decide_eq_true_eq] at untaken
      exact untaken e entry name
    rw [OrderedMap.keys, entries, List.map_append]
    exact registered.keys_nodup.append (List.nodup_singleton _) (by simpa using absent)
  case values_nodup =>
    rw [values]
    exact registered.values_nodup.append (List.nodup_singleton _) (by simpa using unregistered)
  case mem_values =>
    intro other
    simp only [values, List.mem_append, registered.mem_values, queues, List.not_mem_nil, or_false]
  case named =>
    intro e member
    rw [entries, List.mem_append, List.mem_singleton] at member
    rw [cache]
    rcases member with old | rfl
    · exact registered.named e old
    · rfl
  case short =>
    intro other member outside
    rw [values, List.mem_append] at member
    rw [cache, config]
    exact registered.short other (member.resolve_right outside) List.not_mem_nil

theorem Orderly.entered (orderly : s.Orderly [] grown slack) (knows : s.cache.Knows id)
    (nowhere : ∀ status, id ∉ s.queueOf status)
    (untaken : s.requests.contains (s.cache.sequence id).requestId = false)
    (cache : s'.cache = s.cache) (config : s'.config = s.config)
    (requests : s'.requests = s.requests.insert (s.cache.sequence id).requestId id)
    (queues : ∀ status, s'.queueOf status = s.queueOf status) : s'.Orderly [id] grown slack where
  sound := cache ▸ orderly.sound
  staged := by
    rw [cache]
    exact ⟨fun other known _ => orderly.staged.placed other known List.not_mem_nil,
      orderly.staged.progressed⟩
  lined := (orderly.lined.secluded knows nowhere).congr cache queues
  registered := orderly.registered.entered nowhere untaken cache config requests queues
  configured := orderly.configured.congr cache config

theorem Orderly.regrown {grown' : List SeqId} (orderly : s.Orderly [id] grown slack)
    (others : ∀ other, other ≠ id → (other ∈ grown' ↔ other ∈ grown)) : s.Orderly [id] grown' slack := by
  obtain ⟨sound, staged, lined, registered, configured⟩ := orderly
  refine ⟨sound, ⟨fun other knows outside => ?_, staged.progressed⟩, lined, registered, configured⟩
  have different : other ≠ id := by simpa using outside
  simp only [others other different]
  exact staged.placed other knows outside

/-- A request stands in the queue of its status, and in no other. -/
theorem Orderly.stands_iff (orderly : s.Orderly [] grown slack) (member : id ∈ s.requests.values)
    (status : Status) : id ∈ s.queueOf status ↔ (s.cache.sequence id).status = status := by
  constructor
  · exact fun queued => (orderly.lined.stands status id queued).2
  · rintro rfl
    rcases (orderly.registered.mem_values id).mp member with ⟨status, queued⟩ | none
    · exact (orderly.lined.stands status id queued).2.symm ▸ queued
    · cases none

theorem Orderly.device_of_running (orderly : s.Orderly [] grown slack) (member : id ∈ s.running) :
    s.cache.isSwapped id = false := by
  obtain ⟨knows, status⟩ := orderly.lined.running id member
  exact ((orderly.staged.placed id knows List.not_mem_nil).running status).1

theorem Orderly.preempted_of_swapped (orderly : s.Orderly [] grown slack)
    (swapped : s.cache.isSwapped id = true) : id ∈ s.preempted := by
  have knows : s.cache.Knows id :=
    orderly.sound.filed.swapped_known id (by simpa [Cache.isSwapped] using swapped)
  have placed := orderly.staged.placed id knows List.not_mem_nil
  exact orderly.lined.queued_preempted id knows (placed.swapped swapped).1 List.not_mem_nil

theorem Orderly.kept {grown' : List SeqId} (orderly : s.Orderly [] grown slack)
    (member : id ∈ s.requests.values) (handled : s.cache.Handled s'.cache id)
    (unmoved : s.Unmoved s') (others : ∀ other, other ≠ id → (other ∈ grown' ↔ other ∈ grown))
    (status : (s'.cache.sequence id).status = (s.cache.sequence id).status)
    (unswapped : s.config.preemption = .recompute → s'.cache.isSwapped id = false)
    (progressed : Cache.Progressed (s'.cache.sequence id))
    (placed : s'.cache.Placed id (if id ∈ grown' then 1 else 0) slack)
    (short : (s'.cache.sequence id).length < s.config.maxLength) : s'.Orderly [] grown' slack := by
  have stands := (orderly.stands_iff member (s.cache.sequence id).status).mpr rfl
  let s₁ := s.withQueue (s.cache.sequence id).status ((s.queueOf (s.cache.sequence id).status).erase id)
  have left : s.Left s₁ id := orderly.lined.leaves _ stands rfl
  let s₂ := { s₁ with cache := s'.cache }
  have worked : s₂.Orderly [id] grown' slack := by
    refine ((orderly.left member left).regrown others).worked ?_ ⟨rfl, rfl, fun _ => rfl⟩ progressed ?_
    · exact left.cache.symm ▸ handled
    · exact left.config.symm ▸ unswapped
  refine worked.joined ⟨rfl, ?_, ?_, fun other => ?_⟩ placed (left.config.symm ▸ short)
  · exact unmoved.config.trans left.config.symm
  · exact unmoved.requests.trans left.requests.symm
  · have erased : s₂.queueOf other = (s.queueOf other).erase id := left.queues other
    rw [unmoved.queues, erased, show (s₂.cache.sequence id).status = _ from status]
    split
    · rename_i same
      exact List.perm_cons_erase (same ▸ stands)
    · rename_i different
      rw [List.erase_of_not_mem fun among => different (orderly.lined.only stands among)]

end PagedServing.Scheduler
