import PagedServing.Proofs.Scheduler.Ranking

/-! # Everybody who runs takes part

A sequence is let run only if there is room for its next step beside those that run. So there
is room for all of them when the batch is assembled. A sequence alone finds room whatever its
length is, so that somebody runs as long as there are requests.
-/

namespace PagedServing.Scheduler

variable {s s' : Scheduler} {id : SeqId} {plan plan' : Plan}

/-- The plan says what the running sequences claim, and there is room for it. -/
structure Claimed (s : Scheduler) (plan : Plan) : Prop where
  roomy : s.Roomy
  reserved : plan.reserved = s.demand
  tokens : plan.tokens = total (s.running.map fun id => (s.cache.sequence id).uncomputed)

/-- Nobody has computed everything it has. -/
def Pending (s : Scheduler) : Prop :=
  ∀ id ∈ s.requests.values, 0 < (s.cache.sequence id).uncomputed

/-- What iterations rely on to make progress. -/
structure Paced (s : Scheduler) : Prop where
  sequences : s.running.length ≤ s.config.maxSequences
  tokens : s.running.length ≤ s.config.maxBatchedTokens
  uncomputed : ∀ id ∈ s.running, (s.cache.sequence id).uncomputed ≤ 1
  pending : s.Pending
  below : ∀ id ∈ s.requests.values,
    (s.cache.sequence id).completion.length < (s.cache.sequence id).sampling.maxTokens
  unstarted : ∀ id, (s.cache.sequence id).status = .waiting → (s.cache.sequence id).computed = 0
  ranked : s.Ranked (s.running ++ s.preempted)

namespace Entered

variable (entered : s.Entered s' plan plan' id)
include entered

theorem demand : s'.demand = s'.demandOf id + s.demand := by
  unfold Scheduler.demand
  rw [total_perm (entered.running_perm.map _), List.map_cons, total_cons]
  congr 2
  exact Handled.growth_next entered.before.sound entered.handled entered.outside

theorem uncomputed : total (s'.running.map fun id => (s'.cache.sequence id).uncomputed) =
    (s'.cache.sequence id).uncomputed +
      total (s.running.map fun id => (s.cache.sequence id).uncomputed) := by
  rw [total_perm (entered.running_perm.map _), List.map_cons, total_cons]
  congr 2
  apply List.map_congr_left
  intro other runs
  rw [entered.kept runs]

/-- The blocks that were free beside those laid claim to suffice for the next token. -/
theorem room : s'.demandOf id + plan.reserved ≤ s'.cache.device.freeCount := by
  obtain ⟨-, -, blocks⟩ := canStart_iff.mp entered.start
  have device := entered.after.device_of_running entered.runs
  have free : s.cache.device.freeCount ≤
      s'.cache.device.freeCount + (s'.cache.deviceTable id).length :=
    Handled.freeCount_le entered.before.sound entered.handled fun _ among => Or.inr among
  rw [Cache.deviceTable_of_device device] at free
  have needed := entered.after.demandOf_running entered.runs
  have same : (s'.cache.sequence id).blocksFor ((s'.cache.sequence id).length + 1) =
      (s.cache.sequence id).blocksFor ((s.cache.sequence id).length + 1) := by
    rw [Sequence.blocksFor, Sequence.blocksFor, Sequence.length_of_account entered.account,
      entered.handled.sized entered.before.sound]
  have asked := blocksFor_eq entered.before.sound.filed entered.handled.knows
    ((s.cache.sequence id).length + 1)
  push_cast at asked
  rw [asked] at blocks
  rw [same] at needed
  omega

theorem claimed (claimed : s.Claimed plan) : s'.Claimed plan' := by
  obtain ⟨seats, budget, _⟩ := canStart_iff.mp entered.start
  obtain ⟨⟨_, _, _⟩, reserved, spent⟩ := claimed
  refine ⟨⟨?_, ?_, ?_⟩, ?_, ?_⟩
  · rw [entered.running_perm.length_eq, entered.config, List.length_cons]
    exact seats
  · have progress := entered.progress
    rw [entered.uncomputed, entered.config]
    split at progress
    · rename_i swapped
      rw [if_pos swapped] at budget
      omega
    · rename_i device
      rw [if_neg device] at budget
      omega
  · rw [entered.demand, ← reserved]
    exact entered.room
  · rw [entered.reserved, reserved, entered.demand, Int.add_comm]
  · rw [entered.tokens, spent, entered.uncomputed, Int.add_comm]

end Entered

theorem Paced.claimed (paced : s.Paced) (distinct : s.running.Nodup) (retreated : s.Retreated s')
    (steady : s.Steady s') (room : s'.demand ≤ s'.cache.device.freeCount) :
    s'.Claimed s'.claims := by
  obtain ⟨front, _, same⟩ := retreated.running distinct
  have fewer := front.sublist.length_le
  refine ⟨⟨?_, ?_, room⟩, rfl, rfl⟩
  · rw [steady.config]
    exact fewer.trans paced.sequences
  · have small : ∀ id ∈ s'.running, (s'.cache.sequence id).uncomputed ≤ 1 := by
      intro id runs
      rw [same id runs]
      exact paced.uncomputed id (front.subset runs)
    have most := total_map_le_length small
    have tokens := paced.tokens
    rw [steady.config]
    omega

theorem Retreat.pending (retreat : s.Retreat s' id) (pending : s.Pending) : s'.Pending := by
  intro other member
  rw [retreat.requests] at member
  have before := pending other member
  by_cases same : other = id
  · subst same
    have length := Sequence.length_of_account retreat.account
    have computed := retreat.computed
    unfold Sequence.uncomputed at before ⊢
    omega
  · rw [retreat.handled.others other same]
    exact before

theorem Entered.pending (entered : s.Entered s' plan plan' id) (pending : s.Pending) :
    s'.Pending := by
  intro other member
  rw [entered.requests] at member
  have before := pending other member
  by_cases same : other = id
  · subst same
    have progress := entered.progress
    split at progress
    · rw [progress]
      exact before
    · exact progress.1
  · rw [entered.handled.others other same]
    exact before

theorem Orderly.canStart_alone (orderly : s.Orderly [] []) (empty : s.running = [])
    (member : id ∈ s.requests.values) : s.canStart s.claims id = true := by
  have knows := orderly.knows member
  have progressed := orderly.staged.progressed id knows
  have short := orderly.registered.short id member List.not_mem_nil
  have placed := orderly.staged.placed id knows List.not_mem_nil
  have free := orderly.size_le
  have most := orderly.blocksFor_le member
  have asked := blocksFor_eq orderly.sound.filed knows ((s.cache.sequence id).length + 1)
  have seats := s.config.maxSequences_pos
  have natural := progressed.natural
  have length : s.config.maxLength ≤ s.config.maxBatchedTokens :=
    (Nat.min_le_left _ _).trans s.config.maxModelLength_le
  have idle : (s.cache.sequence id).status ≠ .running := by
    intro status
    have runs := orderly.lined.queued_running id knows status List.not_mem_nil
    simp [empty] at runs
  have table : (s.cache.sequence id).table.length ≤
      (s.cache.sequence id).blocksFor ((s.cache.sequence id).length + 1) := by
    cases swapped : s.cache.isSwapped id with
    | true => exact (placed.swapped swapped).2.most
    | false =>
        rw [placed.bare idle swapped]
        exact Nat.zero_le _
  push_cast at asked
  simp only [empty, List.flatMap_nil, List.length_nil] at free
  rw [canStart_iff, asked]
  simp only [claims, demand, empty, List.map_nil, total_nil, List.length_nil, Sequence.uncomputed]
  refine ⟨seats, ?_, ?_⟩
  · split <;> omega
  · omega

/-- What an arranged iteration is like. -/
structure Assembled (s s' : Scheduler) (b : Batch) : Prop where
  steady : s.Steady s'
  members : b.sequences.Perm s'.running
  some : s.isIdle = false → s'.running ≠ []
  sequences : s'.running.length ≤ s'.config.maxSequences
  tokens : s'.running.length ≤ s'.config.maxBatchedTokens
  pending : s'.Pending
  ranked : s'.Ranked (s'.running ++ s'.preempted)
  waiting : s'.waiting <:+ s.waiting
  line : s.Ranked s.line → s'.line = s.line
  first : ∀ id rest, s.running = id :: rest → id ∈ s'.running ∧
    (s'.cache.sequence id).preemptions = (s.cache.sequence id).preemptions

theorem running_of_stuck {s₁ : Scheduler} (retreated : s.Retreated s₁) (orderly : s.Orderly [] [])
    (orderly₁ : s₁.Orderly [] []) (ranked : s.Ranked (s.running ++ s.preempted))
    (advanced : Advanced (s₁, s₁.claims) (s', plan))
    (stuck : s'.Stuck plan (s'.preempted ++ s'.waiting)) (busy : s.isIdle = false) :
    s'.running ≠ [] := by
  intro empty
  have nothing := advanced.induct (motive := fun t q => (t = s₁ ∧ q = s₁.claims) ∨ t.running ≠ [])
    (Or.inl ⟨rfl, rfl⟩) fun t t' q q' other entered _ => Or.inr fun none => by
      have runs := entered.runs
      simp [none] at runs
  obtain ⟨rfl, rfl⟩ := nothing.resolve_right fun some => some empty
  obtain ⟨steady, waiting, front⟩ := retreated.keeps ranked
  have none : s.running = [] := by
    by_contra some
    exact (retreated.running (orderly.lined.nodup .running)).2.1 some empty
  rw [empty, none] at front
  rw [isIdle, none] at busy
  have queue : s'.preempted ++ s'.waiting ≠ [] := by
    rw [waiting, ← List.nil_append s'.preempted, front]
    intro nobody
    simp only [List.nil_append, List.append_eq_nil_iff] at nobody
    simp [nobody] at busy
  obtain ⟨id, rest, head⟩ := List.exists_cons_of_ne_nil queue
  have member : id ∈ s'.requests.values := by
    have queued : id ∈ s'.preempted ++ s'.waiting := by simp [head]
    rcases List.mem_append.mp queued with shelved | waits
    · exact orderly₁.mem_values .preempted shelved
    · exact orderly₁.mem_values .waiting waits
  have refused := stuck id (by simp [head])
  rw [orderly₁.canStart_alone empty member] at refused
  cases refused

theorem Enlarged.steady (enlarged : Enlarged s.cache s'.cache) (unmoved : s.Unmoved s') :
    s.Steady s' := by
  constructor
  case config => exact unmoved.config
  case requests => exact unmoved.requests
  case account =>
    intro id
    rcases enlarged id with same | ⟨_, table, self⟩
    · rw [same]
    · rw [self]
      rfl
  case ended =>
    intro id terminal
    rcases enlarged id with same | ⟨status, table, self⟩
    · exact same
    · simp [status, Status.isTerminal] at terminal
  case kept =>
    intro id stopped _
    rcases enlarged id with same | ⟨status, table, self⟩
    · exact same
    · rw [self] at stopped
      exact absurd status stopped

theorem Enlarged.pending (enlarged : Enlarged s.cache s'.cache) (unmoved : s.Unmoved s')
    (pending : s.Pending) : s'.Pending := by
  intro id member
  rw [unmoved.requests] at member
  rcases enlarged id with same | ⟨_, table, self⟩
  · rw [same]
    exact pending id member
  · rw [self]
    exact pending id member

theorem Retreated.pending (retreated : s.Retreated s') (pending : s.Pending) : s'.Pending := by
  induction retreated with
  | refl => exact pending
  | tail _ last ih =>
      obtain ⟨id, retreat⟩ := last
      exact retreat.pending ih

/-- What planning passes through: preempting leads to `s₁`, admitting to `s₂`, and there is room
    for everybody who runs then. -/
structure Mustered (s s₁ s₂ : Scheduler) (plan : Plan) (s' : Scheduler) (b : Batch) : Prop where
  retreated : { s with preemptedLast := 0 }.Retreated s₁
  orderly₁ : s₁.Orderly [] []
  ranked₁ : s₁.Ranked (s₁.running ++ s₁.preempted)
  advanced : Advanced (s₁, s₁.claims) (s₂, plan)
  orderly₂ : s₂.Orderly [] []
  ranked₂ : s₂.Ranked (s₂.running ++ s₂.preempted)
  stuck : s₂.Stuck plan (s₂.preempted ++ s₂.waiting)
  claimed : s₂.Claimed plan
  pending : s₂.Pending
  built : s₂.Built s' b
  swapIn : b.swapIn = plan.swapIn

theorem Paced.restart (paced : s.Paced) : { s with preemptedLast := 0 }.Paced :=
  ⟨paced.sequences, paced.tokens, paced.uncomputed, paced.pending, paced.below, paced.unstarted,
    paced.ranked⟩

theorem Paced.musters {s₁ s₂ : Scheduler} (paced : s.Paced) (orderly : s.Orderly [] [])
    (retreated : { s with preemptedLast := 0 }.Retreated s₁)
    (room : s₁.demand ≤ s₁.cache.device.freeCount)
    (advanced : Advanced (s₁, s₁.claims) (s₂, plan)) :
    s₁.Ranked (s₁.running ++ s₁.preempted) ∧ s₂.Ranked (s₂.running ++ s₂.preempted) ∧
      s₂.Claimed plan ∧ s₂.Pending := by
  have paced₀ := paced.restart
  obtain ⟨steady₁, _, front₁⟩ := retreated.keeps paced₀.ranked
  have ranked₁ : s₁.Ranked (s₁.running ++ s₁.preempted) := by
    rw [front₁]
    exact steady₁.ranked paced₀.ranked
  have start : s₁.Claimed s₁.claims :=
    paced₀.claimed (orderly.lined.nodup .running) retreated steady₁ room
  refine ⟨ranked₁, (advanced.keeps ranked₁).2, ?_, ?_⟩
  · apply advanced.induct (motive := fun t q => t.Claimed q) start
    intro t t' q q' id entered claimed
    exact entered.claimed claimed
  · apply advanced.induct (motive := fun t _ => t.Pending) (retreated.pending paced₀.pending)
    intro t t' q q' id entered pending
    exact entered.pending pending

theorem Arranged.mustered {b : Batch} (arranged : s.Arranged s' b) (orderly : s.Orderly [] [])
    (paced : s.Paced) : ∃ s₁ s₂ plan, s.Mustered s₁ s₂ plan s' b := by
  cases arranged with
  | @intro s₁ s₂ plan retreated orderly₁ room advanced orderly₂ stuck built swapIn =>
      obtain ⟨ranked₁, ranked₂, claimed, pending⟩ := paced.musters orderly retreated room advanced
      exact ⟨s₁, s₂, plan, retreated, orderly₁, ranked₁, advanced, orderly₂, ranked₂, stuck, claimed,
        pending, built, swapIn⟩

/-- In an arranged iteration everybody who runs takes part. -/
theorem Arranged.assembled {b : Batch} (arranged : s.Arranged s' b) (orderly : s.Orderly [] [])
    (paced : s.Paced) : s.Assembled s' b := by
  obtain ⟨s₁, s₂, plan, retreated, orderly₁, ranked₁, advanced, orderly₂, ranked₂, stuck, claimed,
    pending₂, built, _⟩ := arranged.mustered orderly paced
  let s₀ := { s with preemptedLast := 0 }
  have orderly₀ : s₀.Orderly [] [] := orderly.unmoved rfl ⟨rfl, rfl, fun _ => rfl⟩
  have paced₀ := paced.restart
  obtain ⟨steady₁, waiting₁, front₁⟩ := retreated.keeps paced₀.ranked
  obtain ⟨steady₂, _⟩ := advanced.keeps ranked₁
  have steady₃ := built.enlarged.steady built.unmoved
  have running : s'.running = s₂.running := built.unmoved.queues .running
  have preempted : s'.preempted = s₂.preempted := built.unmoved.queues .preempted
  have waiting : s'.waiting = s₂.waiting := built.unmoved.queues .waiting
  -- whoever runs after the admissions runs in the batch, since room was claimed for all of them
  constructor
  case steady =>
    have steady₀ : s.Steady s₀ := ⟨rfl, rfl, fun _ => rfl, fun _ _ => rfl, fun _ _ _ => rfl⟩
    exact ((steady₀.trans steady₁).trans steady₂).trans steady₃
  case members =>
    rw [built.all claimed.roomy, running]
    exact prioritised_perm s₂.cache s₂.running
  case some =>
    intro busy
    rw [running]
    exact running_of_stuck retreated orderly₀ orderly₁ paced₀.ranked advanced stuck busy
  case sequences =>
    rw [running, built.unmoved.config]
    exact claimed.roomy.sequences
  case tokens =>
    have positive : ∀ id ∈ s₂.running, 0 < (s₂.cache.sequence id).uncomputed := fun id runs =>
      pending₂ id (orderly₂.mem_values .running runs)
    have least := length_le_total_map positive
    have most := claimed.roomy.tokens
    rw [running, built.unmoved.config]
    omega
  case pending => exact built.enlarged.pending built.unmoved pending₂
  case ranked =>
    rw [running, preempted]
    exact steady₃.ranked ranked₂
  case waiting =>
    obtain ⟨_, started, _, admitted, _⟩ := advanced.admits
    refine ⟨started, ?_⟩
    rw [waiting, ← admitted, waiting₁]
  case line =>
    intro ranked
    have line₁ : s₁.line = s.line := by
      rw [line, front₁, waiting₁]
      rfl
    have line₃ : s'.line = s₂.line := by
      rw [line, running, preempted, waiting]
      rfl
    rw [line₃, advanced.line (line₁ ▸ steady₁.ranked ranked), line₁]
  case first =>
    intro id rest head
    -- the retreat takes victims from the end, so the head of the queue is none of them
    have distinct := orderly₀.lined.nodup .running
    have runs := retreated.first distinct head
    obtain ⟨runs₂, same₂⟩ := advanced.running runs
    refine ⟨running ▸ runs₂, ?_⟩
    have kept : s₂.cache.sequence id = s.cache.sequence id :=
      same₂.trans ((retreated.running distinct).2.2 id runs)
    rw [← kept]
    rcases built.enlarged id with equal | ⟨_, table, self⟩
    · rw [equal]
    · rw [self]

end PagedServing.Scheduler
