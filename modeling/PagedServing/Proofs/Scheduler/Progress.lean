import PagedServing.Proofs.Scheduler.Rounds
import PagedServing.Proofs.Scheduler.Runs

/-! # Progress

As long as there are requests, the next iteration executes a batch, and whoever comes first
goes on running. Each request can get a limited number of tokens only, so that iterations alone
end all of them. The scheduler never turns down a request that it has taken in.
-/

namespace PagedServing.Scheduler

variable {ω : Type} {config : Config} {device : Device ω} {s s' : Scheduler} {id : SeqId}

theorem Constructed.paced (constructed : s.Constructed s') (orderly : s.Orderly [] [])
    (paced : s.Paced) : s'.Paced := by
  obtain ⟨unmoved, _, others, unknown, _, _⟩ := constructed
  have running : s'.running = s.running := unmoved.queues .running
  have preempted : s'.preempted = s.preempted := unmoved.queues .preempted
  have runs : ∀ id ∈ s.running, s'.cache.sequence id = s.cache.sequence id := fun id member =>
    others id (orderly.lined.running id member).1
  have registered : ∀ id ∈ s.requests.values, s'.cache.sequence id = s.cache.sequence id :=
    fun id member => others id (orderly.knows member)
  constructor
  case sequences =>
    rw [running, unmoved.config]
    exact paced.sequences
  case tokens =>
    rw [running, unmoved.config]
    exact paced.tokens
  case uncomputed =>
    intro id member
    rw [running] at member
    rw [runs id member]
    exact paced.uncomputed id member
  case pending =>
    intro id member
    rw [unmoved.requests] at member
    rw [registered id member]
    exact paced.pending id member
  case below =>
    intro id member
    rw [unmoved.requests] at member
    rw [registered id member]
    exact paced.below id member
  case unstarted =>
    intro id waits
    by_cases knows : s.cache.Knows id
    · rw [others id knows] at waits ⊢
      exact paced.unstarted id waits
    · exact (unknown id knows).2
  case ranked =>
    rw [running, preempted]
    apply ranked_of_same paced.ranked
    intro id member
    rcases List.mem_append.mp member with runs | shelved
    · exact others id (orderly.lined.running id runs).1
    · exact others id (orderly.lined.preempted id shelved).1

theorem TakenUp.paced (taken : s.TakenUp s' id) (fresh : s.Fresh id) (paced : s.Paced) :
    s'.Paced := by
  obtain ⟨config, running, preempted, _, requests, sequences, _, _, completion⟩ := taken
  constructor
  case sequences =>
    rw [running, config]
    exact paced.sequences
  case tokens =>
    rw [running, config]
    exact paced.tokens
  case uncomputed =>
    intro other member
    rw [running] at member
    rw [sequences]
    exact paced.uncomputed other member
  case pending =>
    intro other member
    rw [requests] at member
    rw [sequences]
    rcases List.mem_append.mp member with old | new
    · exact paced.pending other old
    · obtain rfl := List.mem_singleton.mp new
      have length := (s.cache.sequence other).length_pos
      rw [Sequence.uncomputed, paced.unstarted other fresh.status]
      omega
  case below =>
    intro other member
    rw [requests] at member
    rw [sequences]
    rcases List.mem_append.mp member with old | new
    · exact paced.below other old
    · obtain rfl := List.mem_singleton.mp new
      rw [completion]
      exact (s.cache.sequence other).sampling.maxTokens_pos
  case unstarted =>
    intro other waits
    rw [sequences] at waits ⊢
    exact paced.unstarted other waits
  case ranked =>
    rw [running, preempted]
    exact ranked_of_same paced.ranked fun other _ => sequences other

theorem Served.paced (served : s.Served s') (orderly : s.Orderly [] []) (paced : s.Paced) :
    s'.Paced := by
  have orderly' := (served.orderly orderly).1
  cases served with
  | constructed takes => exact (create_orderly orderly takes).2.2.paced orderly paced
  | taken fresh =>
      rcases (add_orderly orderly fresh).2.2 with kept | taken
      · exact kept.paced orderly orderly' paced
      · exact taken.paced fresh paced
  | aborted name =>
      obtain ⟨_, _, _, thinned⟩ := (abort_returns orderly name).after
      exact thinned.paced orderly orderly' paced
  | released reason =>
      obtain ⟨_, _, _, thinned, _⟩ := (releaseAll_returns orderly reason).after
      exact thinned.paced orderly orderly' paced

theorem start_paced (config : Config) (threshold : Int) : (start config threshold).Paced := by
  refine ⟨Nat.zero_le _, Nat.zero_le _, ?_, ?_, ?_, ?_, List.Pairwise.nil⟩
  · exact fun id member => absurd member List.not_mem_nil
  · exact fun id member => absurd member List.not_mem_nil
  · exact fun id member => absurd member List.not_mem_nil
  · intro id _
    have unknown : ¬ (start config threshold).cache.Knows id := Nat.not_lt_zero id
    rw [Cache.sequence_of_unknown unknown]
    rfl

theorem Reachable.paced (valid : device.Valid) {d : Driven ω}
    (reachable : Reachable config device d) : d.scheduler.Paced := by
  induction reachable with
  | start threshold w => exact start_paced config threshold
  | served before served ih => exact served.paced (before.orderly valid).1 ih
  | stepped before ih =>
      obtain ⟨_, _, paced, _⟩ := (Driven.step_round (before.orderly valid).1 ih valid).after
      exact paced

/-- The number of tokens that a request may still get. -/
def rest (s : Scheduler) (id : SeqId) : Int :=
  let q := s.sequence id
  min (q.sampling.maxTokens : Int) (s.config.maxLength - q.prompt.length) - q.completion.length

/-- What is left to do for a sequence: nothing, once it is no request any more. -/
def due (s : Scheduler) (id : SeqId) : Int :=
  if id ∈ s.requests.values then s.rest id else 0

/-- What is left to do for all of some sequences. -/
def owed (s : Scheduler) (ids : List SeqId) : Int :=
  total (ids.map s.due)

/-- The number of tokens that all requests may still get. -/
def budget (s : Scheduler) : Int :=
  total (s.requests.values.map s.rest)

theorem budget_eq (s : Scheduler) : s.budget = s.owed s.requests.values := by
  unfold budget owed
  congr 1
  apply List.map_congr_left
  intro id member
  rw [due, if_pos member]

theorem rest_pos (orderly : s.Orderly [] []) (paced : s.Paced) (member : id ∈ s.requests.values) :
    0 < s.rest id := by
  have short := orderly.registered.short id member List.not_mem_nil
  have below := paced.below id member
  simp only [rest, sequence]
  unfold Sequence.length at short
  omega

theorem due_nonneg (orderly : s.Orderly [] []) (paced : s.Paced) (id : SeqId) : 0 ≤ s.due id := by
  unfold due
  split
  · exact Int.le_of_lt (rest_pos orderly paced ‹_›)
  · exact Int.le_refl 0

theorem due_pos (orderly : s.Orderly [] []) (paced : s.Paced) :
    0 < s.due id ↔ id ∈ s.requests.values := by
  constructor
  · intro some
    by_contra left
    rw [due, if_neg left] at some
    exact absurd some (Int.lt_irrefl 0)
  · intro member
    rw [due, if_pos member]
    exact rest_pos orderly paced member

/-- Where there are no requests, none come up as long as no more is left to do. -/
theorem values_eq_nil_of_due_le {s' : Scheduler} (orderly : s.Orderly [] []) (paced : s.Paced)
    (orderly' : s'.Orderly [] []) (paced' : s'.Paced) (fewer : ∀ id, s'.due id ≤ s.due id)
    (none : s.requests.values = []) : s'.requests.values = [] := by
  apply List.eq_nil_iff_forall_not_mem.mpr
  intro id member
  have before := (due_pos orderly paced).mp (((due_pos orderly' paced').mpr member).trans_le (fewer id))
  exact List.not_mem_nil (none ▸ before)

theorem owed_pos (orderly : s.Orderly [] []) (paced : s.Paced) {ids : List SeqId} (among : id ∈ ids)
    (member : id ∈ s.requests.values) : 0 < s.owed ids := by
  have some : 0 < s.due id := (due_pos orderly paced).mpr member
  have nothing : 0 ≤ total (ids.map fun _ => 0) := total_map_nonneg fun _ _ => Int.le_refl 0
  exact nothing.trans_lt (total_map_lt (fun other _ => due_nonneg orderly paced other) among some)

theorem rest_of_account (config : s'.config = s.config)
    (account : (s'.cache.sequence id).account = (s.cache.sequence id).account) :
    s'.rest id = s.rest id := by
  have prompt : (s'.cache.sequence id).prompt = (s.cache.sequence id).prompt :=
    congrArg Origin.prompt (Sequence.origin_of_account account)
  simp only [rest, sequence, config, prompt, Sequence.sampling_of_account account,
    Sequence.completion_of_account account]

theorem Thinned.due {allowed : FinishReason → Prop} (thinned : s.Thinned s' allowed)
    (orderly : s.Orderly [] []) (paced : s.Paced) (id : SeqId) : s'.due id ≤ s.due id := by
  by_cases left : id ∈ s'.requests.values
  · have spared := (thinned.each id).resolve_right fun past => past.unregistered left
    have member := thinned.reduced.requests id left
    rw [Scheduler.due, Scheduler.due, if_pos left, if_pos member,
      rest_of_account thinned.reduced.config spared.account]
  · rw [Scheduler.due, if_neg left]
    exact due_nonneg orderly paced id

/-- Some others may get as much as before, and those who have a turn get less afterwards. -/
theorem Assembled.due {t : Scheduler} {b : Batch} (assembled : s.Assembled t b)
    (orderly : s.Orderly [] []) (paced : s.Paced) (turned : t.Turned s' b.sequences) (id : SeqId) :
    s'.due id ≤ s.due id ∧ (id ∈ b.sequences → id ∈ s.requests.values → s'.due id < s.due id) := by
  have steady := assembled.steady
  have reduced := turned.reduced
  have config : s'.config = s.config := reduced.config.trans steady.config
  have natural := due_nonneg orderly paced id
  unfold Scheduler.due at natural ⊢
  by_cases left : id ∈ s'.requests.values
  · have member : id ∈ s.requests.values := steady.requests ▸ reduced.requests id left
    rw [if_pos left, if_pos member]
    by_cases among : id ∈ b.sequences
    · obtain ⟨token, completion⟩ := ((turned.each id among).wentOn left).completion
      have account := steady.account id
      have origin := (reduced.origins id).trans (Sequence.origin_of_account account)
      have prompt : (s'.cache.sequence id).prompt = (s.cache.sequence id).prompt :=
        congrArg Origin.prompt origin
      have sampling : (s'.cache.sequence id).sampling = (s.cache.sequence id).sampling :=
        congrArg Origin.sampling origin
      rw [Sequence.completion_of_account account] at completion
      have less : s'.rest id = s.rest id - 1 := by
        simp only [rest, sequence, config, prompt, sampling, completion, List.length_append,
          List.length_singleton]
        omega
      omega
    · have account := (turned.others id among).account.trans (steady.account id)
      rw [rest_of_account config account]
      exact ⟨Int.le_refl _, fun among' => absurd among' among⟩
  · rw [if_neg left]
    refine ⟨natural, fun _ member => ?_⟩
    rw [if_pos member]
    exact rest_pos orderly paced member

end PagedServing.Scheduler
