import PagedServing.Proofs.Scheduler.Intake
import PagedServing.Proofs.Scheduler.Iteration

/-! # Runs of a scheduler

A scheduler starts idle. From then on requests are constructed, taken in and given up, and
iterations are run, in any order. It is orderly in every state that is reached.
-/

namespace PagedServing.Scheduler

variable {ω : Type} {config : Config} {device : Device ω}

/-- What is done to a scheduler between two iterations. -/
inductive Served (s : Scheduler) : Scheduler → Prop where
  | constructed {d : Draft} (takes : s.Takes d) : Served s ((create d).after s)
  | taken {id : SeqId} (fresh : s.Fresh id) : Served s ((add id).after s)
  | aborted (name : String) : Served s ((abort name).after s)
  | released (reason : FinishReason) : Served s ((releaseAll reason).after s)

/-- The states between two operations, on a device. -/
inductive Reachable (config : Config) (device : Device ω) : Driven ω → Prop where
  | start (threshold : Int) (w : ω) : Reachable config device ⟨start config threshold, w⟩
  | served {d : Driven ω} {s : Scheduler} (before : Reachable config device d)
      (served : d.scheduler.Served s) : Reachable config device { d with scheduler := s }
  | stepped {d : Driven ω} (before : Reachable config device d) :
      Reachable config device ((Driven.step (some device)).after d)

theorem start_sound (config : Config) (threshold : Int) : (start config threshold).cache.Sound := by
  have deviceHolders : (start config threshold).cache.deviceHolders = fun _ => 0 := rfl
  have hostHolders : (start config threshold).cache.hostHolders = fun _ => 0 := rfl
  have unknown : ∀ id, ¬ (start config threshold).cache.Knows id := fun id knows =>
    Nat.not_lt_zero id knows
  refine ⟨⟨fun id knows => absurd knows (unknown id), fun id knows => absurd knows (unknown id),
    fun id knows => absurd knows (unknown id), List.nodup_nil, by simp [start, counted],
    by simp [start, counted]⟩, ⟨?_, ?_, ?_⟩, ?_⟩
  · rw [deviceHolders]
    exact Pool.ofSize_balanced _ _
  · intro p host
    rw [hostHolders]
    simp only [start, counted] at host
    split at host
    · cases host
    · cases host
      exact Pool.ofSize_balanced _ _
  · exact fun b => Nat.zero_le 1
  · have plain : ∀ b, (start config threshold).cache.device.Has b →
        ((start config threshold).cache.device.entry b).hash = noHash := by
      intro b has
      have has : (Pool.ofSize config.deviceBlocks config.blockSize).Has b := has
      rw [show (start config threshold).cache.device = .ofSize config.deviceBlocks config.blockSize
        from rfl, Pool.entry_ofSize has]
    refine ⟨fun h b found => ?_, fun b _ _ => Nat.zero_le 1, fun id i b place => ?_,
      fun _ => plain⟩
    · cases found
    · exact absurd (Cache.knows_of_place place) (unknown id)

theorem start_orderly (config : Config) (threshold : Int) :
    (start config threshold).Orderly [] [] := by
  have unknown : ∀ id, ¬ (start config threshold).cache.Knows id := fun id knows =>
    Nat.not_lt_zero id knows
  have nobody : ∀ status, (start config threshold).queueOf status = [] := fun status => by
    cases status <;> rfl
  constructor
  case sound => exact start_sound config threshold
  case staged =>
    exact ⟨fun id knows => absurd knows (unknown id), fun id knows => absurd knows (unknown id)⟩
  case lined =>
    constructor
    case nodup => simp [nobody]
    case stands => simp [nobody]
    case apart => simp
    case queued => exact fun _ id knows => absurd knows (unknown id)
  case registered =>
    have requests : (start config threshold).requests = {} := rfl
    constructor
    case keys_nodup => exact List.nodup_nil
    case values_nodup => exact List.nodup_nil
    case mem_values => simp [nobody, requests, OrderedMap.values]
    case named => simp [requests]
    case short => simp [requests, OrderedMap.values]
  case configured =>
    refine ⟨rfl, rfl, ?_, fun _ _ => rfl⟩
    simp [start, counted, Pool.ofSize, Pool.size]

theorem Served.orderly {s s' : Scheduler} {slack : Prop} (served : s.Served s')
    (orderly : s.Orderly [] [] slack) : s'.Orderly [] [] slack ∧ s.Carried s' := by
  cases served with
  | constructed takes => exact (create_orderly orderly takes).imp_right And.left
  | taken fresh => exact (add_orderly orderly fresh).imp_right And.left
  | aborted name => exact (abort_returns orderly name).after.elim fun _ holds => ⟨holds.1, holds.2.1⟩
  | released reason =>
      exact (releaseAll_returns orderly reason).after.elim fun _ holds => ⟨holds.1, holds.2.1⟩

theorem Reachable.orderly (valid : device.Valid) {d : Driven ω}
    (reachable : Reachable config device d) :
    d.scheduler.Orderly [] [] ∧ d.scheduler.config = config := by
  induction reachable with
  | start threshold w => exact ⟨start_orderly config threshold, rfl⟩
  | served before served ih =>
      obtain ⟨orderly, carried⟩ := served.orderly ih.1
      exact ⟨orderly, carried.config.trans ih.2⟩
  | stepped before ih =>
      obtain ⟨_, orderly, same, _⟩ := (Driven.step_returns ih.1 valid).after
      exact ⟨orderly, same.trans ih.2⟩

/-- When a sequence may be taken in, and for which reasons requests may be released. -/
structure Rules where
  taking : Scheduler → SeqId → Prop
  releasing : FinishReason → Prop

/-- What the rules let be done to a scheduler between two iterations. -/
inductive Operated (rules : Rules) (s : Scheduler) : Scheduler → Prop where
  | constructed {d : Draft} (takes : s.Takes d) : Operated rules s ((create d).after s)
  | taken {id : SeqId} (fresh : s.Fresh id) (may : rules.taking s id) :
      Operated rules s ((add id).after s)
  | aborted (name : String) : Operated rules s ((abort name).after s)
  | released {reason : FinishReason} (may : rules.releasing reason) :
      Operated rules s ((releaseAll reason).after s)

/-- The states of runs that follow the rules. -/
inductive Follows (config : Config) (device : Device ω) (rules : Rules) : Driven ω → Prop where
  | start (threshold : Int) (w : ω) : Follows config device rules ⟨start config threshold, w⟩
  | operated {d : Driven ω} {s : Scheduler} (before : Follows config device rules d)
      (operated : d.scheduler.Operated rules s) :
      Follows config device rules { d with scheduler := s }
  | stepped {d : Driven ω} (before : Follows config device rules d) :
      Follows config device rules ((Driven.step (some device)).after d)

theorem Operated.served {rules : Rules} {s s' : Scheduler} (operated : s.Operated rules s') :
    s.Served s' := by
  cases operated with
  | constructed takes => exact .constructed takes
  | taken fresh _ => exact .taken fresh
  | aborted name => exact .aborted name
  | released _ => exact .released _

theorem Follows.reachable {rules : Rules} {d : Driven ω} (follows : Follows config device rules d) :
    Reachable config device d := by
  induction follows with
  | start threshold w => exact .start threshold w
  | operated _ operated ih => exact .served ih operated.served
  | stepped _ ih => exact .stepped ih

namespace Driven

/-- A request with a prompt arrives: its sequence is constructed and taken in. -/
def request (d : Driven ω) (prompt : List Int) : Driven ω :=
  let draft : Draft := { prompt, blockSize := d.scheduler.config.blockSize }
  let id := d.scheduler.cache.sequences.nextId
  { d with scheduler := (add id).after ((create draft).after d.scheduler) }

/-- Some iterations are run on a device. -/
def iterate (d : Driven ω) (device : Device ω) : Nat → Driven ω
  | 0 => d
  | count + 1 => (step (some device)).after (iterate d device count)

end Driven

/-- A sequence that was just constructed can be taken in. -/
theorem fresh_created {s : Scheduler} {slack : Prop} (orderly : s.Orderly [] [] slack) {d : Draft}
    (takes : s.Takes d) (prompt : d.prompt ≠ []) : ((create d).after s).Fresh s.cache.sequences.nextId := by
  have size : 0 < d.blockSize := by
    rw [takes.blockSize]
    exact Int.ofNat_lt.mpr s.config.blockSize_pos
  have returns : (create d).Returns s fun id s' => s'.Fresh s.cache.sequences.nextId := by
    simp only [create, returns_onCache]
    refine (Cache.create_returns prompt size).weaken ?_
    rintro id c ⟨q, created, _, _, _, _, _, status, _⟩
    rw [← created.number]
    refine ⟨(created.knows_iff id).mpr (Or.inr rfl), created.self ▸ status, fun waits => ?_⟩
    exact created.unknown (orderly.lined.waiting id waits).1
  exact returns.after.elim fun _ fresh => fresh

theorem request_served {d : Driven ω} {slack : Prop} (orderly : d.scheduler.Orderly [] [] slack)
    {prompt : List Int} (some : prompt ≠ []) (hashes : d.scheduler.cache.Hashes prompt) :
    ∃ s, d.scheduler.Served s ∧ s.Served (d.request prompt).scheduler :=
  have takes : d.scheduler.Takes { prompt, blockSize := d.scheduler.config.blockSize } := ⟨rfl, hashes⟩
  ⟨_, .constructed takes, .taken (fresh_created orderly takes some)⟩

theorem Reachable.request {d : Driven ω} {slack : Prop} (reachable : Reachable config device d)
    (orderly : d.scheduler.Orderly [] [] slack) {prompt : List Int} (some : prompt ≠ []) (hashes : d.scheduler.cache.Hashes prompt) :
    Reachable config device (d.request prompt) := by
  obtain ⟨s, constructed, taken⟩ := request_served orderly some hashes
  exact .served (d := { d with scheduler := s }) (.served reachable constructed) taken

/-- A request may be made under rules that let its sequence be taken in. -/
theorem Follows.request (valid : device.Valid) {rules : Rules} {d : Driven ω}
    (follows : Follows config device rules d) {prompt : List Int} (some : prompt ≠ [])
    (hashes : d.scheduler.cache.Hashes prompt)
    (may : rules.taking
      ((create { prompt, blockSize := d.scheduler.config.blockSize }).after d.scheduler)
      d.scheduler.cache.sequences.nextId) :
    Follows config device rules (d.request prompt) := by
  have takes : d.scheduler.Takes { prompt, blockSize := d.scheduler.config.blockSize } := ⟨rfl, hashes⟩
  have fresh := fresh_created (follows.reachable.orderly valid).1 takes some
  let draft : Draft := { prompt, blockSize := d.scheduler.config.blockSize }
  have constructed : Follows config device rules { d with scheduler := (create draft).after d.scheduler } :=
    .operated follows (.constructed takes)
  exact .operated (d := { d with scheduler := (create draft).after d.scheduler }) constructed
    (.taken fresh may)

theorem Reachable.iterate {d : Driven ω} (reachable : Reachable config device d) (count : Nat) :
    Reachable config device (d.iterate device count) := by
  induction count with
  | zero => exact reachable
  | succ count ih => exact .stepped ih

/-- A configuration with twelve blocks of one token, for runs that are written out. -/
def smallConfig (preemption : Preemption) (sharing : Bool) : Config where
  blockSize := 1
  deviceBlocks := 12
  hostBlocks := 8
  maxSequences := 8
  maxBatchedTokens := 16
  maxModelLength := 8
  eos := -1
  preemption := preemption
  sharing := sharing
  severity := .info
  blockSize_pos := Nat.one_pos
  deviceBlocks_pos := by decide
  maxSequences_pos := by decide
  one_lt_maxModelLength := by decide
  maxModelLength_le := by decide
  hostBlocks_pos _ := by decide

/-- An idle scheduler before such a run. -/
def smallStart (preemption : Preemption) (sharing : Bool) : Driven Unit :=
  ⟨start (smallConfig preemption sharing) 20, ()⟩

/-- A device that gives every sequence the token seven. -/
def sevens : Device Unit where
  execute b _ w := ({ result := .ok (b.sequences.map fun _ => { token := 7 }) }, w)

theorem sevens_valid : sevens.Valid := by
  intro batch sequences w samples answer sample member
  cases answer
  obtain ⟨_, _, rfl⟩ := List.mem_map.mp member
  exact fun _ => ⟨by decide, by decide⟩

theorem smallStart_reachable (preemption : Preemption) (sharing : Bool) :
    Reachable (smallConfig preemption sharing) sevens (smallStart preemption sharing) :=
  .start 20 ()

theorem Reachable.requestSeven {d : Driven Unit} (reachable : Reachable config sevens d)
    (prompt : List Int) (small : prompt ≠ [] ∧ ∀ t ∈ prompt, tokenFits t = true) :
    Reachable config sevens (d.request prompt) :=
  reachable.request (reachable.orderly sevens_valid).1 small.1 fun _ => small.2

end PagedServing.Scheduler
