import PagedServing.Proofs.Scheduler.Conservation
import PagedServing.Proofs.Scheduler.Interruption
import PagedServing.Proofs.Scheduler.Sessions

/-! # Consistency after faults

An iteration may be broken off, and a sequence may be refused. Whatever happened before: queues and
pools fit together in every state, so that the next call finds what it relies on.
-/

namespace PagedServing.Scheduler

variable {ω : Type} {config : Config} {device : Device ω} {s : Scheduler} {id : SeqId}

/-- The queues and the pools of a scheduler fit together. -/
structure Consistent (s : Scheduler) : Prop where
  /-- Every request stands in the queue of its status, and in no other. -/
  live : ∀ id ∈ s.requests.values, ∀ status,
    id ∈ s.queueOf status ↔ (s.sequence id).status = status
  /-- Every block in use is named by the table of a queued sequence, -/
  device : ∀ b ∈ s.cache.device.used, ∃ status, ∃ id ∈ s.queueOf status,
    s.cache.isSwapped id = false ∧ b ∈ (s.sequence id).table
  /-- on the host too. -/
  host : ∀ p, s.cache.host = some p → ∀ b ∈ p.used, ∃ status, ∃ id ∈ s.queueOf status,
    s.cache.isSwapped id = true ∧ b ∈ (s.sequence id).table
  audited : s.audit = .ok ()

theorem Orderly.consistent {slack : Prop} (orderly : s.Orderly [] [] slack) : s.Consistent where
  live id member := orderly.stands_iff member
  device b used := by
    have tabled := orderly.tabledBlocks_perm.mem_iff.mpr used
    simp only [tabledBlocks, List.mem_eraseDups, List.mem_flatMap, List.mem_filter] at tabled
    obtain ⟨⟨id, status⟩, ⟨queued, device⟩, member⟩ := tabled
    exact ⟨status, id, mem_queue.mp queued, by simpa using device, member⟩
  host p pool b used := by
    have held := ((orderly.sound.balanced.host p pool).mem_used b).mp used
    rw [← orderly.hostHolders_eq, List.count_pos_iff] at held
    simp only [Cache.places, List.mem_flatMap, List.mem_filter, List.mem_range] at held
    obtain ⟨id, ⟨knows, stands⟩, member⟩ := held
    obtain ⟨status, swapped⟩ := Bool.and_eq_true_iff.mp stands
    exact ⟨.preempted, id,
      orderly.lined.queued_preempted id knows (of_decide_eq_true status) List.not_mem_nil,
      swapped, member⟩
  audited := orderly.audit_ok

/-- No sequence has tokens that wait for its next output. -/
def Even (s : Scheduler) : Prop :=
  ∀ id, (s.ledger.transcript id).emitted = (s.ledger.transcript id).completion.length

namespace Session

variable {r r' : Session ω} {c : Call}

/-- What a session comes to by proper calls, whether they return or meet a fault. -/
inductive Endures (device : Device ω) (r : Session ω) : Session ω → Prop where
  | refl : Endures device r r
  | call {r' : Session ω} {c : Call} (before : Endures device r r')
      (proper : c.Proper r'.scheduler) : Endures device r (r'.perform device c)

/-- Each of some calls is proper. -/
def AllProper (device : Device ω) : Session ω → List Call → Prop
  | _, [] => True
  | r, c :: rest => c.Proper r.scheduler ∧ AllProper device (r.perform device c) rest

instance AllProper.decidable (device : Device ω) : (calls : List Call) → (r : Session ω) →
    Decidable (AllProper device r calls)
  | [], _ => isTrue trivial
  | c :: rest, r =>
    have := decidable device rest (r.perform device c)
    inferInstanceAs (Decidable (_ ∧ _))

theorem Endures.trans {r'' : Session ω} (first : Endures device r r')
    (second : Endures device r' r'') : Endures device r r'' := by
  induction second with
  | refl => exact first
  | call _ proper ih => exact .call ih proper

theorem AllProper.endures {calls : List Call} (made : AllProper device r calls) :
    Endures device r (r.performAll device calls) := by
  induction calls generalizing r with
  | nil => exact .refl
  | cons c rest ih =>
      obtain ⟨proper, made⟩ := made
      exact (Endures.call .refl proper).trans (ih made)

/-- What all calls keep, also those that meet a fault. -/
structure Resilient (config : Config) (r : Session ω) : Prop where
  orderly : r.scheduler.Orderly [] [] True
  config : r.scheduler.config = config
  even : r.scheduler.Even

theorem told_of_proper (device : Device ω) (orderly : r.scheduler.Orderly [] [] True)
    (proper : c.Proper r.scheduler) (notStep : c ≠ .step) :
    Told device r (r.perform device c) c := by
  cases c with
  | create d => exact create_told orderly proper
  | add id => exact add_told orderly proper
  | abort name => exact abort_told orderly name
  | releaseAll reason => exact releaseAll_told orderly reason
  | takePending => exact takePending_told
  | step => exact absurd rfl notStep

theorem perform_orderly (device : Device ω) (orderly : r.scheduler.Orderly [] [] True)
    (proper : c.Proper r.scheduler) (notStep : c ≠ .step) :
    (r.perform device c).scheduler.Orderly [] [] True ∧
      (r.perform device c).scheduler.config = r.scheduler.config := by
  cases c with
  | create d =>
      obtain ⟨orderly', carried, _⟩ := create_orderly orderly proper
      exact ⟨orderly', carried.config⟩
  | add id =>
      obtain ⟨orderly', carried, _⟩ := add_orderly orderly proper
      rw [perform_add]
      exact ⟨orderly', carried.config⟩
  | abort name =>
      obtain ⟨_, orderly', carried, _⟩ := (abort_returns orderly name).after
      exact ⟨orderly', carried.config⟩
  | releaseAll reason =>
      obtain ⟨_, orderly', carried, _⟩ := (releaseAll_returns orderly reason).after
      exact ⟨orderly', carried.config⟩
  | takePending => exact ⟨orderly.unmoved rfl ⟨rfl, rfl, fun _ => rfl⟩, rfl⟩
  | step => exact absurd rfl notStep

theorem step_resilient (resilient : r.Resilient config) (bounded : device.Bounded config) :
    (r.perform device .step).Resilient config := by
  obtain ⟨orderly, rfl, even⟩ := resilient
  obtain ⟨p, m, prepared, _⟩ := prepare_returns orderly
  rcases Driven.step_outcome orderly bounded prepared with ⟨_, returns⟩ | ⟨_, _, _, _, _, _, fails⟩
  · obtain ⟨result, d, run, ⟨orderly', same, _⟩, _, _, _, _, _, _, _, heard, _⟩ :=
      returns.also (Driven.step_heard orderly)
    simp only [perform, run]
    exact ⟨orderly', same, heard.even even⟩
  · obtain ⟨fault, d, run, _, ⟨orderly', same, _, _, heard⟩, _⟩ := fails
    simp only [perform, run]
    exact ⟨orderly', same, heard.even even⟩

theorem perform_resilient (resilient : r.Resilient config) (bounded : device.Bounded config)
    (proper : c.Proper r.scheduler) : (r.perform device c).Resilient config := by
  by_cases step : c = .step
  · exact step ▸ step_resilient resilient bounded
  · obtain ⟨orderly', same⟩ := perform_orderly device resilient.orderly proper step
    exact ⟨orderly', same.trans resilient.config,
      (told_of_proper device resilient.orderly proper step).even resilient.even⟩

theorem Endures.resilient {threshold : Int} {w : ω}
    (run : Endures device (opened config threshold w) r) (bounded : device.Bounded config) :
    r.Resilient config := by
  induction run with
  | refl => exact ⟨(start_orderly config threshold).loosen, rfl, fun _ => rfl⟩
  | call _ proper ih => exact perform_resilient ih bounded proper

/-- Whatever is called, and whatever meets a fault: queues and pools fit together afterwards. -/
theorem consistent_after_faults (bounded : device.Bounded config) {threshold : Int} {w : ω}
    (run : Endures device (opened config threshold w) r) : r.scheduler.Consistent :=
  (run.resilient bounded).orderly.consistent

/-- A device that answers the second sequence with a number that is no token. -/
def stumbling : Device Unit where
  execute b _ w :=
    ({ result := .ok (b.sequences.map fun id => { token := if id = 1 then -1 else 7 }) }, w)

theorem stumbling_bounded (config : Config) : stumbling.Bounded config := by
  intro _ batch sequences w samples answer sample member _
  cases answer
  obtain ⟨id, _, rfl⟩ := List.mem_map.mp member
  by_cases second : id = 1 <;> simp [second]

/-- Two requests are handed in, the first of which ends with its first token. -/
def pairCalls : List Call :=
  let single : Sampling := { Sampling.standard with maxTokens := 1, maxTokens_pos := Nat.one_pos }
  [.create { prompt := [5, 6], blockSize := 1, sampling := single },
    .create { prompt := [5], blockSize := 1 }, .add 0, .add 1]

/-- A session in which the next iteration is broken off at the second of two requests. -/
def pair : Session Unit :=
  (opened (smallConfig .swap true) 20 ()).performAll stumbling pairCalls

theorem pair_endures : Endures stumbling (opened (smallConfig .swap true) 20 ()) pair := by
  have made : AllProper stumbling (opened (smallConfig .swap true) 20 ()) pairCalls := by
    decide +kernel
  exact made.endures

theorem consistent_after_faults_pair :
    (Driven.step (some stumbling)).Fails pair.driven (fun fault _ => fault = .negativeToken (-1)) ∧
      (pair.perform stumbling .step).scheduler.requests.values = [1] ∧
      (pair.perform stumbling .step).scheduler.Consistent :=
  ⟨by decide +kernel, by decide +kernel,
    consistent_after_faults (stumbling_bounded _) (.call pair_endures (c := .step) trivial)⟩

/-- A device whose token is beyond a word of 32 bits. -/
def oversized : Device Unit where
  execute b _ w := ({ result := .ok (b.sequences.map fun _ => { token := 2147483648 }) }, w)

/-- A token beyond a word of 32 bits cannot be hashed. A request that has one and ends has left its
    queue when this is found out. Nobody puts it back, and its blocks stay in use. -/
theorem inconsistent_beyond_word :
    let brief : Sampling := { Sampling.standard with maxTokens := 2, maxTokens_pos := Nat.two_pos }
    let calls : List Call :=
      [.create { prompt := [5], blockSize := 1, sampling := brief }, .add 0, .step, .step]
    let r := (opened (smallConfig .recompute true) 20 ()).performAll oversized calls
    (0 ∈ r.scheduler.requests.values ∧ (r.scheduler.sequence 0).status = .running ∧
      r.scheduler.running = [] ∧ r.scheduler.cache.device.used = [2, 1, 0] ∧
      r.scheduler.audit = .error (.registryMismatch 1 0)) ∧ ¬ r.scheduler.Consistent := by
  intro brief calls r
  have lost : 0 ∈ r.scheduler.requests.values ∧ (r.scheduler.sequence 0).status = .running ∧
      r.scheduler.running = [] ∧ r.scheduler.cache.device.used = [2, 1, 0] := by decide +kernel
  have audited : r.scheduler.audit = .error (.registryMismatch 1 0) := by decide +kernel
  obtain ⟨member, runs, nobody, used⟩ := lost
  refine ⟨⟨member, runs, nobody, used, audited⟩, fun consistent => ?_⟩
  have queued : 0 ∈ r.scheduler.running := (consistent.live 0 member .running).mpr runs
  rw [nobody] at queued
  cases queued

end Session

end PagedServing.Scheduler
