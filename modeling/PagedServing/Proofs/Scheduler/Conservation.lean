import PagedServing.Proofs.Pool.Count
import PagedServing.Proofs.Scheduler.Runs
import PagedServing.Scheduler.Audit

/-! # Blocks are conserved

Between two operations every block of a pool is free or named by the block tables, as often
as it has references. Device blocks are named by running sequences only and host blocks by
swapped-out ones only, each of which has just the blocks that its tokens take. So an audit
finds nothing, and without queued sequences every block is free.
-/

namespace PagedServing

namespace Scheduler

variable {s : Scheduler} {id : SeqId}

/-- Whether a sequence runs. -/
def isRunning (s : Scheduler) (id : SeqId) : Bool :=
  (s.sequence id).status = .running

/-- Whether a sequence is preempted and has its blocks on the host. -/
def isOnHost (s : Scheduler) (id : SeqId) : Bool :=
  (s.sequence id).status = .preempted && s.cache.isSwapped id

/-- What holds about the blocks between two operations. -/
structure Conserved (s : Scheduler) : Prop where
  device : s.cache.device.Accounted (s.cache.places s.isRunning)
  host : ∀ p, s.cache.host = some p → p.Accounted (s.cache.places s.isOnHost)
  running : ∀ id, s.cache.Knows id → (s.sequence id).status = .running →
    s.cache.isSwapped id = false ∧ (s.sequence id).table.length = (s.sequence id).blockCount
  swapped : ∀ id, s.cache.isSwapped id = true → s.cache.host.isSome ∧ s.cache.Knows id ∧
    (s.sequence id).status = .preempted ∧
    (s.sequence id).table.length = (s.sequence id).blockCount
  bare : ∀ id, s.cache.Knows id → (s.sequence id).status ≠ .running →
    s.cache.isSwapped id = false → (s.sequence id).table = []
  audited : s.audit = .ok ()
  idle : s.isIdle = true ∨ s.requests.isEmpty = true →
    s.cache.device.freeCount = s.cache.device.size ∧
    ∀ p, s.cache.host = some p → p.freeCount = p.size

theorem isRunning_iff : s.isRunning id = true ↔ (s.cache.sequence id).status = .running :=
  decide_eq_true_iff

theorem mem_queue {e : SeqId × Status} : e ∈ s.queue ↔ e.1 ∈ s.queueOf e.2 := by
  obtain ⟨id, status⟩ := e
  cases status <;> simp [queue, queueOf]

namespace Orderly

section

variable {slack : Prop} (orderly : s.Orderly [] [] slack)
include orderly

theorem placed (knows : s.cache.Knows id) : s.cache.Placed id 0 slack :=
  orderly.staged.placed id knows List.not_mem_nil

theorem deviceTable_eq (knows : s.cache.Knows id) :
    s.cache.deviceTable id = if s.isRunning id then (s.sequence id).table else [] := by
  have placed := orderly.placed knows
  unfold Cache.deviceTable isRunning sequence
  by_cases status : (s.cache.sequence id).status = .running
  · simp [status, (placed.running status).1]
  · cases device : s.cache.isSwapped id with
    | true => simp [status]
    | false => simp [status, placed.bare status device]

theorem hostTable_eq (knows : s.cache.Knows id) :
    s.cache.hostTable id = if s.isOnHost id then (s.sequence id).table else [] := by
  have placed := orderly.placed knows
  unfold Cache.hostTable isOnHost sequence
  cases swapped : s.cache.isSwapped id with
  | true => simp [(placed.swapped swapped).1]
  | false => simp

theorem deviceHolders_eq (b : Int) : (s.cache.places s.isRunning).count b = s.cache.deviceHolders b := by
  rw [Cache.count_places]
  exact Cache.occurrences_congr (fun id knows => (orderly.deviceTable_eq knows).symm) b

theorem hostHolders_eq (b : Int) :
    (s.cache.places s.isOnHost).count b = s.cache.hostHolders b := by
  rw [Cache.count_places]
  exact Cache.occurrences_congr (fun id knows => (orderly.hostTable_eq knows).symm) b

theorem queue_nodup : (s.queue.map (·.1)).Nodup := by
  have names : s.queue.map (·.1) =
      s.queueOf .waiting ++ s.queueOf .running ++ s.queueOf .preempted := by
    simp [queue, queueOf, Function.comp_def]
  have lined := orderly.lined
  rw [names]
  refine ((lined.nodup .waiting).append (lined.nodup .running) fun id waits runs => ?_).append
    (lined.nodup .preempted) fun id earlier shelved => ?_
  · cases lined.only waits runs
  · rcases List.mem_append.mp earlier with waits | runs
    · cases lined.only waits shelved
    · cases lined.only runs shelved

theorem queued_stands {e : SeqId × Status} (member : e ∈ s.queue) :
    s.cache.Knows e.1 ∧ (s.sequence e.1).status = e.2 :=
  orderly.lined.stands e.2 e.1 (mem_queue.mp member)

theorem queue_length : s.queue.length = s.requests.size := by
  have same : s.requests.values.Perm (s.queue.map (·.1)) := by
    rw [List.perm_ext_iff_of_nodup orderly.registered.values_nodup orderly.queue_nodup]
    intro id
    rw [orderly.registered.mem_values]
    simp only [List.not_mem_nil, or_false, List.mem_map, Prod.exists, exists_and_right,
      exists_eq_right, mem_queue]
  have := same.length_eq
  simpa [OrderedMap.values, OrderedMap.size] using this.symm

/-- An audit goes through queued sequences that were not seen before. -/
theorem auditQueue_eq (entries : List (SeqId × Status)) :
    ∀ seen : List SeqId, (∀ e ∈ entries, e ∈ s.queue) → (entries.map (·.1)).Nodup →
      (∀ e ∈ entries, e.1 ∉ seen) →
      s.auditQueue seen entries = .ok (seen.length + entries.length) := by
  induction entries with
  | nil =>
      intro seen _ _ _
      rfl
  | cons e rest ih =>
      obtain ⟨id, status⟩ := e
      intro seen queued distinct new
      obtain ⟨absent, distinct⟩ := List.nodup_cons.mp distinct
      obtain ⟨knows, stands⟩ := orderly.queued_stands (queued _ List.mem_cons_self)
      have unseen : id ∉ seen := new _ List.mem_cons_self
      have roomy : ¬ (status = .running ∧ (s.sequence id).capacity < (s.sequence id).length) := by
        rintro ⟨runs, full⟩
        have table := ((orderly.placed knows).running (stands.trans runs)).2
        have room := table.length_le_capacity
        exact Nat.not_lt.mpr room full
      have others := ih (id :: seen) (fun e member => queued e (List.mem_cons_of_mem _ member))
        distinct fun e member => by
          rw [List.mem_cons, not_or]
          refine ⟨fun same => absent ?_, new e (List.mem_cons_of_mem _ member)⟩
          exact List.mem_map.mpr ⟨e, member, same⟩
      have stands : (s.sequence id).status = status := stands
      simp only [auditQueue, unseen, stands, roomy, if_false, ne_eq, not_true, others,
        List.length_cons]
      congr 1
      omega

/-- The blocks that queued sequences name are the blocks in use. -/
theorem tabledBlocks_perm : s.tabledBlocks.Perm s.cache.device.used := by
  have balanced := orderly.sound.balanced.device
  have distinct : s.tabledBlocks.Nodup := by
    unfold tabledBlocks
    exact Pool.nodup_eraseDups _
  rw [List.perm_ext_iff_of_nodup distinct balanced.used_nodup]
  intro b
  rw [balanced.mem_used, ← orderly.deviceHolders_eq, List.count_pos_iff]
  simp only [tabledBlocks, List.mem_eraseDups, Cache.places, List.mem_flatMap, List.mem_filter,
    List.mem_range]
  constructor
  · rintro ⟨e, ⟨queued, device⟩, member⟩
    obtain ⟨knows, _⟩ := orderly.queued_stands queued
    refine ⟨e.1, ⟨knows, ?_⟩, member⟩
    by_contra stands
    have bare := (orderly.placed knows).bare (fun status => stands (isRunning_iff.mpr status))
      (by simpa using device)
    have member : b ∈ (s.cache.sequence e.1).table := member
    simp [bare] at member
  · rintro ⟨id, ⟨knows, stands⟩, member⟩
    have status := isRunning_iff.mp stands
    have queued := orderly.lined.queued_running id knows status List.not_mem_nil
    refine ⟨(id, .running), ⟨?_, ?_⟩, member⟩
    · exact mem_queue.mpr queued
    · simp [((orderly.placed knows).running status).1]

theorem audit_ok : s.audit = .ok () := by
  have queued := orderly.auditQueue_eq s.queue [] (fun _ => id) orderly.queue_nodup
    fun _ _ => List.not_mem_nil
  have size := orderly.queue_length
  have used := orderly.tabledBlocks_perm.length_eq
  have total := orderly.sound.balanced.device.free_add_used
  have free : (s.cache.device.freeCount : Int) = s.cache.device.size - s.tabledBlocks.length := by
    rw [Pool.freeCount, used]
    omega
  simp [audit, queued, size, free, pure, Except.pure, bind, Except.bind]

theorem isIdle_of_unregistered (none : s.requests.isEmpty = true) : s.isIdle = true := by
  have empty : s.requests.entries = [] := by simpa [OrderedMap.isEmpty] using none
  have length := orderly.queue_length
  simp only [OrderedMap.size, empty, List.length_nil, List.length_eq_zero_iff, queue,
    List.append_eq_nil_iff, List.map_eq_nil_iff] at length
  simp [isIdle, length]

theorem unheld_of_idle (idle : s.isIdle = true) (b : Int) :
    s.cache.deviceHolders b = 0 ∧ s.cache.hostHolders b = 0 := by
  simp only [isIdle, Bool.and_eq_true, List.isEmpty_iff] at idle
  obtain ⟨⟨-, running⟩, preempted⟩ := idle
  rw [← orderly.deviceHolders_eq, ← orderly.hostHolders_eq, List.count_eq_zero, List.count_eq_zero]
  simp only [Cache.places, List.mem_flatMap, List.mem_filter, List.mem_range]
  constructor
  · rintro ⟨id, ⟨knows, stands⟩, -⟩
    have queued := orderly.lined.queued_running id knows (isRunning_iff.mp stands) List.not_mem_nil
    simp [running] at queued
  · rintro ⟨id, ⟨knows, stands⟩, -⟩
    obtain ⟨status, -⟩ := Bool.and_eq_true_iff.mp stands
    have queued := orderly.lined.queued_preempted id knows (of_decide_eq_true status)
      List.not_mem_nil
    simp [preempted] at queued

end

theorem conserved (orderly : s.Orderly [] []) : s.Conserved where
  device := orderly.sound.balanced.device.accounted orderly.deviceHolders_eq
  host p pool := (orderly.sound.balanced.host p pool).accounted orderly.hostHolders_eq
  running id knows status :=
    ((orderly.placed knows).running status).imp_right fun covered => covered.exact
  swapped id swapped := by
    have member : id ∈ s.cache.swapped := by simpa [Cache.isSwapped] using swapped
    have knows := orderly.sound.filed.swapped_known id member
    exact ⟨orderly.sound.filed.swapped_host id member, knows,
      ((orderly.placed knows).swapped swapped).imp_right fun covered => covered.exact⟩
  bare id knows status device := (orderly.placed knows).bare status device
  audited := orderly.audit_ok
  idle either := by
    have idle : s.isIdle = true := either.elim (fun idle => idle) orderly.isIdle_of_unregistered
    have unheld := orderly.unheld_of_idle idle
    exact ⟨orderly.sound.balanced.device.free_of_unheld fun b => (unheld b).1, fun p pool =>
      (orderly.sound.balanced.host p pool).free_of_unheld fun b => (unheld b).2⟩

end Orderly

/-- In every state between two operations the blocks are conserved. -/
theorem blocks_conserved {ω : Type} {config : Config} {device : Device ω} (valid : device.Valid)
    {d : Driven ω} (reachable : Reachable config device d) : d.scheduler.Conserved :=
  (reachable.orderly valid).1.conserved

theorem blocks_conserved_sevens :
    ((((smallStart .swap true).request [5, 6]).request [5]).iterate sevens 2).scheduler.Conserved :=
  have reachable := ((smallStart_reachable .swap true).requestSeven [5, 6] (by decide)).requestSeven
    [5] (by decide)
  blocks_conserved sevens_valid (reachable.iterate 2)

end Scheduler

end PagedServing
