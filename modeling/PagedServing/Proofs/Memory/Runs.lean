import PagedServing.Proofs.Memory.Settlement
import PagedServing.Proofs.Scheduler.Interruption
import PagedServing.Proofs.Scheduler.Runs

/-! # Runs with memory

The memory is followed along the runs of a scheduler. In a mode without swapping it always
backs the cache, if hashes do not collide and a batch that fails writes nothing. Without
sharing it does too, whatever a batch that fails leaves where it was to copy or to write.
-/

namespace PagedServing.Scheduler

open Batch (slotOf)
open Memory (Exact Loose)

variable {ω : Type} {config : Config} {device : Device ω} {d d' : Driven ω} {s t : Scheduler}
  {p : Prepared} {c : Cache} {b : Batch} {m m' : Memory} {id : SeqId} {slack : Prop}

/-- The tokens of all sequences. -/
def tokensOf (s : Scheduler) (id : SeqId) : List Int :=
  (s.sequence id).tokens

/-- What the execution of a batch does to the memory: which memory may follow another, by
    the batch, the tokens of its sequences and what the device answers. -/
abbrev Rule :=
  Batch → (SeqId → List Int) → Memory → Except String (List Sample) → Memory → Prop

/-- The states between two operations on a device, each with what its memory may hold. -/
inductive Remembered (config : Config) (device : Device ω) (rule : Rule) :
    Driven ω → Memory → Prop where
  | start (threshold : Int) (w : ω) (m : Memory) :
      Remembered config device rule ⟨start config threshold, w⟩ m
  | served {d : Driven ω} {m : Memory} {s : Scheduler}
      (before : Remembered config device rule d m) (served : d.scheduler.Served s) :
      Remembered config device rule { d with scheduler := s } m
  | idle {d : Driven ω} {m : Memory} {p : Prepared} {s : Scheduler}
      (before : Remembered config device rule d m) (prepared : prepare d.scheduler = .ok p s)
      (idle : p.hasWork = false) :
      Remembered config device rule ((Driven.step (some device)).after d) m
  | executed {d : Driven ω} {m m' : Memory} {p : Prepared} {s : Scheduler}
      (before : Remembered config device rule d m) (prepared : prepare d.scheduler = .ok p s)
      (work : p.hasWork = true)
      (memory : rule p.batch s.tokensOf m
        (device.execute p.batch (s.members p.batch) d.device).1.result m') :
      Remembered config device rule ((Driven.step (some device)).after d) m'

theorem Remembered.reachable {rule : Rule} (remembered : Remembered config device rule d m) :
    Reachable config device d := by
  induction remembered with
  | start threshold w _ => exact .start threshold w
  | served _ served ih => exact .served ih served
  | idle _ _ _ ih => exact .stepped ih
  | executed _ _ _ _ ih => exact .stepped ih

/-- If the rule says something for every execution, every reached state has some memory. -/
theorem Reachable.remembered {rule : Rule} (bounded : device.Bounded config)
    (total : ∀ b tokens m result, ∃ m', rule b tokens m result m')
    (reachable : Reachable config device d) : ∃ m, Remembered config device rule d m := by
  induction reachable with
  | start threshold w => exact ⟨⟨fun _ => [], fun _ => []⟩, .start threshold w _⟩
  | served _ served ih =>
      obtain ⟨m, remembered⟩ := ih
      exact ⟨m, .served remembered served⟩
  | @stepped d before ih =>
      obtain ⟨m, remembered⟩ := ih
      obtain ⟨p, s, prepared, _⟩ := prepare_returns (before.orderly_of_bounded bounded).1
      cases work : p.hasWork with
      | false => exact ⟨m, .idle remembered prepared work⟩
      | true =>
          obtain ⟨m', memory⟩ := total p.batch s.tokensOf m
            (device.execute p.batch (s.members p.batch) d.device).1.result
          exact ⟨m', .executed remembered prepared work memory⟩

theorem start_backed (config : Config) (threshold : Int) (m : Memory) :
    (start config threshold).cache.Backed m where
  stored _ knows := absurd knows (Nat.not_lt_zero _)
  published h b found := by cases found
  plain _ _ := rfl

theorem planned_of_prepare (orderly : s.Orderly [] [] slack) (prepared : prepare s = .ok p t) :
    Planned s.cache t p.batch slack ∧ t.config = s.config :=
  ((prepare_returns orderly).of_run prepared).imp_right And.left

theorem Settled.extends {result : Except String (List Sample)} (settled : Settled s t b result) :
    s.cache.Extends t.cache := by
  cases settled with
  | @committed samples _ journal _ _ each =>
      exact (Cache.Change.reported s.cache journal).extends.trans each.extends
  | failed _ dropped => exact dropped.carried.changes.extends

theorem committed_backed {journal : Logging.Journal} {front : List SeqId}
    (planned : Planned c s b slack) (first : front <+: b.sequences)
    (each : CommittedEach front { s.cache with journal } t.cache)
    (distinct : t.cache.Distinct) (backed : s.cache.Backed (m.moved b)) :
    t.cache.Backed (m.executed b s.tokensOf) := by
  have fitted := planned.fitted
  have extended := (Cache.Change.reported s.cache journal).extends.trans each.extends
  obtain ⟨backed', written⟩ := backed.executed planned.orderly.sound fitted
    (extended.distinct distinct)
  exact each.backed (planned.nodup.sublist first.sublist) distinct
    (fun id among => fitted.device id (first.subset among))
    (fun id among => written id (first.subset among))
    ⟨backed'.stored, backed'.published, backed'.plain⟩

theorem Settled.exact {result : Except String (List Sample)} (settled : Settled s t b result)
    (planned : Planned c s b slack) (recompute : s.config.preemption = .recompute)
    (distinct : t.cache.Distinct) (backed : s.cache.Backed (m.moved b))
    (memory : Exact b s.tokensOf m result m') : t.cache.Backed m' := by
  have distinct₀ := settled.extends.distinct distinct
  cases settled with
  | committed _ first each =>
      cases memory with
      | returned => exact committed_backed planned first each distinct backed
  | failed _ dropped =>
      refine dropped.carried.changes.backed distinct ?_
      cases memory with
      | returned =>
          exact (backed.executed planned.orderly.sound planned.fitted distinct₀).1
      | raised => exact (planned.still (m := m) recompute).2 ▸ backed

theorem Settled.loose {result : Except String (List Sample)} (settled : Settled s t b result)
    (planned : Planned c s b slack) (sound : t.cache.Sound) (off : s.config.sharing = false)
    (distinct : t.cache.Distinct) (backed : s.cache.Backed (m.moved b))
    (memory : Loose b s.tokensOf m result m') : t.cache.Backed m' := by
  cases settled with
  | committed count first each =>
      cases memory with
      | returned => exact committed_backed planned first each distinct backed
      | failed failure _ => exact absurd count (failure _ rfl)
  | failed failure dropped =>
      cases memory with
      | returned count => exact absurd count (failure _ rfl)
      | failed _ spared => exact dropped.backed planned sound off spared backed

theorem moved_of_idle (planned : Planned c s p.batch slack) (idle : p.hasWork = false) :
    m.moved p.batch = m := by
  have still : p.batch.hasBlockOps = false := (Bool.or_eq_false_iff.mp idle).2
  simp only [Batch.hasBlockOps, Bool.or_eq_false_iff, Bool.not_eq_false', OrderedMap.isEmpty,
    List.isEmpty_iff] at still
  obtain ⟨⟨swapIn, swapOut⟩, -⟩ := still
  refine Memory.moved_of_still ?_ ?_ planned.copies
  · exact congrArg OrderedMap.mk swapOut
  · exact congrArg OrderedMap.mk swapIn

theorem Remembered.backed {rule : Rule} (bounded : device.Bounded config)
    (mode : config.preemption = .recompute ∨ config.sharing = false)
    (settling : ∀ {c s t b m m' result}, Planned c s b True → t.cache.Sound → s.config = config →
      Settled s t b result → t.cache.Distinct → s.cache.Backed (m.moved b) →
      rule b s.tokensOf m result m' → t.cache.Backed m')
    (remembered : Remembered config device rule d m) (distinct : d.scheduler.cache.Distinct) :
    d.scheduler.cache.Backed m := by
  induction remembered with
  | start threshold w m => exact start_backed config threshold m
  | served before served ih =>
      obtain ⟨orderly, _⟩ := before.reachable.orderly_of_bounded bounded
      have changes := (served.orderly orderly).2.changes
      exact changes.backed distinct (ih (changes.extends.distinct distinct))
  | @idle d m p s before prepared idle ih =>
      obtain ⟨orderly, same⟩ := before.reachable.orderly_of_bounded bounded
      obtain ⟨planned, config'⟩ := planned_of_prepare orderly prepared
      obtain ⟨-, -, cache, -⟩ := Driven.step_settles orderly (same.symm ▸ bounded) prepared
      rw [cache idle] at distinct ⊢
      have mode : s.config.preemption = .recompute ∨ s.config.sharing = false := by
        rwa [config', same]
      have backed := planned.backed orderly.sound mode distinct
        (ih (planned.extends.distinct distinct))
      rwa [moved_of_idle planned idle] at backed
  | @executed d m m' p s before prepared work memory ih =>
      obtain ⟨orderly, same⟩ := before.reachable.orderly_of_bounded bounded
      obtain ⟨planned, config'⟩ := planned_of_prepare orderly prepared
      obtain ⟨orderly', -, -, executed⟩ :=
        Driven.step_settles orderly (same.symm ▸ bounded) prepared
      obtain ⟨t, cache, settled⟩ := executed work
      have config' : s.config = config := config'.trans same
      rw [cache] at distinct ⊢
      have distinct₀ := settled.extends.distinct distinct
      have backed := planned.backed orderly.sound (config'.symm ▸ mode) distinct₀
        (ih (planned.extends.distinct distinct₀))
      exact settling planned (cache ▸ orderly'.sound) config' settled distinct backed memory

end PagedServing.Scheduler
