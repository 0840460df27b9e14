import PagedServing.Proofs.Scheduler.Ranking

/-! # Preempting no more than it takes

Running sequences are preempted from the last one on, until the tables of all others can be
extended by one token. Had one sequence less been preempted, then the free blocks would not have
sufficed; and nobody who was preempted comes back at once.
-/

namespace PagedServing

namespace Cache

variable {c : Cache} {id : SeqId}

/-- Make the tables of some sequences cover one token more, one after the other. -/
def extendEach (ids : List SeqId) : Action Cache Unit :=
  ids.forM fun id => do
    let q ← look id
    discard (grow id (q.length + 1))

theorem canAppend_of_grow {tokens : Int} {post : Option (Int × Int) → Cache → Prop}
    (returns : (grow id tokens).Returns c post) : c.canAppend id tokens = true := by
  simp only [grow, Action.returns_bind, Action.returns_get, Action.returns_require] at returns
  exact returns.2.1

theorem extendEach_returns_iff {ids : List SeqId} (sound : c.Sound) (distinct : ids.Nodup)
    (present : ∀ id ∈ ids, c.Knows id ∧ c.isSwapped id = false) :
    (extendEach ids).Returns c (fun _ _ => True) ↔
      total (ids.map fun id => c.growth id ((c.sequence id).length + 1)) ≤ c.device.freeCount := by
  induction ids generalizing c with
  | nil => simp [extendEach]
  | cons id rest ih =>
      obtain ⟨absent, distinct⟩ := List.nodup_cons.mp distinct
      obtain ⟨knows, device⟩ := present id List.mem_cons_self
      -- extending one table takes what it needs, and leaves the needs of the others
      have after : ∀ {c' blocks}, c'.Sound → c.Grown c' id blocks →
          (blocks.length : Int) = c.growth id ((c.sequence id).length + 1) →
            ((extendEach rest).Returns c' (fun _ _ => True) ↔
              total ((id :: rest).map fun id => c.growth id ((c.sequence id).length + 1)) ≤
                c.device.freeCount) := by
        intro c' blocks sound' grown count
        have handled := Handled.of_grown sound' grown
        have needed := Scheduler.Handled.growth_next sound handled absent
        have free := grown.free
        rw [ih sound' distinct fun other among => ?_, needed, List.map_cons, total_cons]
        · omega
        · obtain ⟨knows, device⟩ := present other (List.mem_cons_of_mem _ among)
          have different : other ≠ id := fun same => absent (same ▸ among)
          exact ⟨(handled.knows_iff other).mpr knows, (handled.swapped other different).trans device⟩
      rw [extendEach, Action.returns_forM_cons]
      simp only [Action.returns_bind, returns_look, Action.returns_discard]
      constructor
      · rintro returns
        have enough := canAppend_of_grow returns
        obtain ⟨_, c', run, extended⟩ := returns
        obtain ⟨sound', _, blocks, grown, count⟩ :=
          (grow_returns sound knows device enough).of_run run
        exact (after sound' grown count).mp extended
      · intro room
        have natural : 0 ≤ total (rest.map fun id => c.growth id ((c.sequence id).length + 1)) :=
          total_map_nonneg fun other _ => Scheduler.growth_nonneg c other _
        have enough : c.canAppend id ((c.sequence id).length + 1) = true := by
          rw [List.map_cons, total_cons] at room
          exact decide_eq_true (by omega)
        refine (grow_returns sound knows device enough).weaken ?_
        rintro _ c' ⟨sound', _, blocks, grown, count⟩
        exact (after sound' grown count).mpr room

end Cache

namespace Scheduler

variable {s s' m : Scheduler} {id : SeqId} {plan : Plan} {slack : Prop}

/-- The tables of all that run can be extended by one token each, from the free blocks. -/
def Extensible (s : Scheduler) : Prop :=
  (Cache.extendEach s.running).Returns s.cache fun _ _ => True

instance (s : Scheduler) : Decidable s.Extensible :=
  inferInstanceAs (Decidable ((Cache.extendEach s.running).Returns s.cache fun _ _ => True))

theorem extensible_iff (orderly : s.Orderly [] [] slack) :
    s.Extensible ↔ s.demand ≤ s.cache.device.freeCount :=
  Cache.extendEach_returns_iff orderly.sound (orderly.lined.nodup .running) fun id runs =>
    ⟨(orderly.lined.running id runs).1, orderly.device_of_running runs⟩

/-- The state after some running sequences were preempted, one after the other from the last on. -/
def yielding (s : Scheduler) (victims : List SeqId) : Scheduler :=
  victims.foldr (fun id t => (preempt id).after { t with running := t.running.erase id }) s

theorem Retreated.shortest (retreated : s.Retreated s') : ∃ victims,
    s.running = s'.running ++ victims ∧ s' = s.yielding victims ∧
      s'.preemptedLast = s.preemptedLast + victims.length ∧
      ∀ fewer, fewer <:+ victims → fewer ≠ victims → ¬ (s.yielding fewer).Extensible := by
  induction retreated with
  | refl =>
      refine ⟨[], (List.append_nil _).symm, rfl, rfl, fun fewer suffix different => ?_⟩
      exact absurd (List.suffix_nil.mp suffix) different
  | @tail t s' _ last ih =>
      obtain ⟨id, retreat⟩ := last
      obtain ⟨victims, running, result, count, scarce⟩ := ih
      refine ⟨id :: victims, ?_, ?_, ?_, fun fewer suffix different => ?_⟩
      · rw [running, retreat.running, List.append_assoc]
        rfl
      · rw [yielding, List.foldr_cons, ← yielding, ← result]
        exact retreat.result
      · rw [retreat.count, count, List.length_cons, Nat.add_assoc]
      · have suffix := (List.suffix_cons_iff.mp suffix).resolve_left different
        by_cases same : fewer = victims
        · rw [same, ← result, extensible_iff retreat.before, Int.not_le]
          exact retreat.scarce
        · exact scarce fewer suffix same

/-- The shortest suffix of those that run without which the others can all be extended. -/
structure Surplus (s : Scheduler) (victims : List SeqId) : Prop where
  running : (s.yielding victims).running ++ victims = s.running
  enough : (s.yielding victims).Extensible
  shortest : ∀ fewer, fewer <:+ s.running → (s.yielding fewer).Extensible → victims <:+ fewer

theorem Retreated.surplus (retreated : s.Retreated s') (orderly : s'.Orderly [] [] slack)
    (room : s'.demand ≤ s'.cache.device.freeCount) : ∃ victims, s.Surplus victims ∧
      s' = s.yielding victims ∧ s'.preemptedLast = s.preemptedLast + victims.length := by
  obtain ⟨victims, running, result, count, scarce⟩ := retreated.shortest
  refine ⟨victims, ⟨result ▸ running.symm, ?_, fun fewer suffix enough => ?_⟩, result, count⟩
  · rw [← result, extensible_iff orderly]
    exact room
  · have all : victims <:+ s.running := ⟨s'.running, running.symm⟩
    rcases List.suffix_or_suffix_of_suffix suffix all with less | more
    · by_cases same : fewer = victims
      · exact same ▸ List.suffix_rfl
      · exact absurd enough (scarce fewer less same)
    · exact more

/-- Whoever was just preempted cannot start: the blocks that it gave up were not enough for it and
    those before it. -/
theorem Retreat.stuck (retreat : s.Retreat s' id) : s'.canStart s'.claims id = false := by
  have sound := retreat.before.sound
  have member : id ∈ s.running := by simp [retreat.running]
  obtain ⟨knows, _⟩ := retreat.before.lined.running id member
  have device := retreat.before.device_of_running member
  have demand : s.demand = s'.demand + s.demandOf id := by
    have distinct : s.running.Nodup := retreat.before.lined.nodup .running
    rw [retreat.running, List.nodup_append] at distinct
    unfold Scheduler.demand
    rw [retreat.running, List.map_append, total_append]
    congr 1
    · congr 1
      refine List.map_congr_left fun other runs => ?_
      have different : other ≠ id := distinct.2.2 other runs id (List.mem_singleton_self id)
      unfold demandOf sequence
      rw [retreat.handled.others other different]
      exact (Handled.growth sound retreat.handled different _).symm
    · simp
  have needed := retreat.before.demandOf_running member
  have free : s'.cache.device.freeCount ≤
      s.cache.device.freeCount + (s.cache.deviceTable id).length :=
    Handled.freeCount_le retreat.after.sound (retreat.handled.symm sound) fun _ among => Or.inr among
  rw [Cache.deviceTable_of_device device] at free
  have asked := blocksFor_eq retreat.after.sound.filed retreat.handled.knows'
    ((s'.cache.sequence id).length + 1)
  have same : (s'.cache.sequence id).blocksFor ((s'.cache.sequence id).length + 1) =
      (s.cache.sequence id).blocksFor ((s.cache.sequence id).length + 1) := by
    rw [Sequence.blocksFor, Sequence.blocksFor, Sequence.length_of_account retreat.account,
      retreat.handled.sized sound]
  have scarce := retreat.scarce
  rw [same] at asked
  push_cast at asked
  rw [Bool.eq_false_iff, Ne, canStart_iff, asked]
  rintro ⟨-, -, room⟩
  have reserved : s'.claims.reserved = s'.demand := rfl
  omega

end Scheduler

end PagedServing
