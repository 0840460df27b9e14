import PagedServing.Proofs.Scheduler.Consistency

/-! # Stopping in time

A sequence that was taken in goes on as long as no stop condition holds, and ends with the first
token at which one does. It may be preempted meanwhile, and its batches may fail. Whoever is ended
for another reason had met no stop condition before.
-/

namespace PagedServing

/-- The last tokens of a completion end it: the end token of the model, a stop token, or a whole stop
    sequence. -/
def Sampling.EndsIn (sampling : Sampling) (eos : Int) (completion : List Int) : Prop :=
  (completion.getLast? = some eos ∧ sampling.ignoreEos = false) ∨
    (∃ token ∈ sampling.stopTokens, completion.getLast? = some token) ∨
    ∃ stop ∈ sampling.stopSequences, stop <:+ completion

/-- A completion meets a stop condition: its last tokens end it, or there is no room for more. -/
def Stopped (config : Config) (sampling : Sampling) (prompt completion : List Int) : Prop :=
  sampling.EndsIn config.eos completion ∨ sampling.maxTokens ≤ completion.length ∨
    config.maxLength ≤ prompt.length + completion.length

instance (config : Config) (sampling : Sampling) (prompt completion : List Int) :
    Decidable (Stopped config sampling prompt completion) := by
  unfold Stopped Sampling.EndsIn
  infer_instance

/-- No beginning of a completion meets a stop condition. -/
def Unstopped (config : Config) (sampling : Sampling) (prompt completion : List Int) : Prop :=
  ∀ front, front <+: completion → front ≠ [] → ¬ Stopped config sampling prompt front

/-- A completion ends where it meets a stop condition for the first time, and for the reason that
    this condition calls for. -/
structure StoppedFirst (config : Config) (sampling : Sampling) (prompt completion : List Int)
    (reason : FinishReason) : Prop where
  stopped : Stopped config sampling prompt completion
  first : ∀ front, front <+: completion → front ≠ completion → front ≠ [] →
    ¬ Stopped config sampling prompt front
  either : reason = .stop ∨ reason = .length
  stop : reason = .stop ↔ sampling.EndsIn config.eos completion

section

variable {config : Config} {sampling : Sampling} {prompt completion : List Int} {token : Int}
  {reason : FinishReason}

theorem stopping_eq_none_iff : stopping config.eos config.maxLength sampling prompt completion = none ↔
    ¬ Stopped config sampling prompt completion := by
  unfold stopping Stopped Sampling.EndsIn
  dsimp only
  split_ifs with ends full
  · simp [ends]
  · simp [full]
  · simp [ends, full]

theorem stopping_eq_some_iff :
    stopping config.eos config.maxLength sampling prompt completion = some reason ↔
      Stopped config sampling prompt completion ∧ (reason = .stop ∨ reason = .length) ∧
        (reason = .stop ↔ sampling.EndsIn config.eos completion) := by
  unfold stopping Stopped Sampling.EndsIn
  dsimp only
  split_ifs with ends full
  · cases reason <;> simp [ends]
  · cases reason <;> simp [ends, full]
  · simp [ends, full]

theorem Unstopped.nil (config : Config) (sampling : Sampling) (prompt : List Int) :
    Unstopped config sampling prompt [] :=
  fun _ start filled => absurd (List.prefix_nil.mp start) filled

theorem Unstopped.grow (unstopped : Unstopped config sampling prompt completion)
    (goesOn : stopping config.eos config.maxLength sampling prompt (completion ++ [token]) = none) :
    Unstopped config sampling prompt (completion ++ [token]) := by
  intro front start filled
  rcases List.prefix_concat_iff.mp start with rfl | start
  · exact stopping_eq_none_iff.mp goesOn
  · exact unstopped front start filled

theorem Unstopped.ends (unstopped : Unstopped config sampling prompt completion)
    (stops : stopping config.eos config.maxLength sampling prompt (completion ++ [token]) =
      some reason) : StoppedFirst config sampling prompt (completion ++ [token]) reason := by
  obtain ⟨stopped, either, stop⟩ := stopping_eq_some_iff.mp stops
  refine ⟨stopped, fun front start different filled => ?_, either, stop⟩
  exact unstopped front ((List.prefix_concat_iff.mp start).resolve_left different) filled

end

theorem Heard.config {l l' : Ledger} {turns : List Turn} {outputs : List Output}
    (heard : Heard l turns outputs l') : l'.config = l.config := by
  induction heard with
  | nil l => rfl
  | cons rest ih => exact ih

/-- What ends a sequence apart from its stop conditions: a failure, its cancellation, or a call that
    releases it for some reason. -/
def Outward (released : SeqId → FinishReason → Prop) (id : SeqId) (reason : FinishReason) : Prop :=
  reason = .error ∨ reason = .cancelled ∨ released id reason

/-- A sequence ends in its turn without a token. -/
def Turn.Cut (turn : Turn) (released : SeqId → FinishReason → Prop) : Prop :=
  turn.tokens = [] ∧ ∃ reason, turn.ending = some reason ∧ Outward released turn.id reason

namespace Ledger

variable {l l' : Ledger} {id : SeqId} {turn : Turn} {released : SeqId → FinishReason → Prop}

/-- A sequence heeds its stop conditions: as long as it is a request it has met none, and then it has
    ended at the first one, or was ended before from outside. -/
structure Heeds (l : Ledger) (released : SeqId → FinishReason → Prop) (id : SeqId) : Prop where
  short : (l.transcript id).origin.prompt.length < l.config.maxLength
  live : id ∈ l.requests.values → Unstopped l.config (l.transcript id).origin.sampling
    (l.transcript id).origin.prompt (l.transcript id).completion
  past : id ∉ l.requests.values → ∃ reason, (l.transcript id).reason = some reason ∧
    (StoppedFirst l.config (l.transcript id).origin.sampling (l.transcript id).origin.prompt
        (l.transcript id).completion reason ∨
      Unstopped l.config (l.transcript id).origin.sampling (l.transcript id).origin.prompt
        (l.transcript id).completion ∧ Outward released id reason)

theorem Heeds.congr (heeds : l.Heeds released id) (config : l'.config = l.config)
    (same : l'.transcript id = l.transcript id)
    (registered : id ∈ l'.requests.values ↔ id ∈ l.requests.values) : l'.Heeds released id := by
  constructor
  case short =>
    rw [config, same]
    exact heeds.short
  case live =>
    rw [config, same, registered]
    exact heeds.live
  case past =>
    rw [config, same, registered]
    exact heeds.past

/-- A turn is cut short, or a sample is committed in it. -/
def Takes (l : Ledger) (released : SeqId → FinishReason → Prop) (turn : Turn) : Prop :=
  turn.Cut released ∨ ∃ sample, turn = l.answer turn.id sample

section Turned

variable (heeds : l.Heeds released turn.id) (member : turn.id ∈ l.requests.values)
  (config : l'.config = l.config)
  (transcript : l'.transcript turn.id = (l.drafted turn).delivered)
  (registered : turn.id ∈ l'.requests.values ↔ turn.ending = none)
include heeds member config transcript registered

theorem Heeds.cut (cut : turn.Cut released) : l'.Heeds released turn.id := by
  obtain ⟨nothing, reason, ends, holds⟩ := cut
  have origin : (l'.transcript turn.id).origin = (l.transcript turn.id).origin := by
    rw [transcript]
    rfl
  have completion : (l'.transcript turn.id).completion = (l.transcript turn.id).completion := by
    rw [transcript]
    simp [drafted, Transcript.delivered, nothing]
  refine ⟨?_, fun live => ?_, fun _ => ⟨reason, ?_, ?_⟩⟩
  · rw [origin, config]
    exact heeds.short
  · cases (registered.mp live).symm.trans ends
  · rw [transcript]
    simp [drafted, Transcript.delivered, ends]
  · rw [origin, config, completion]
    exact Or.inr ⟨heeds.live member, holds⟩

theorem Heeds.answered {token : Int} (tokens : turn.tokens = [token])
    (ending : turn.ending = stopping l.config.eos l.config.maxLength
      (l.transcript turn.id).origin.sampling (l.transcript turn.id).origin.prompt
      ((l.transcript turn.id).completion ++ [token])) : l'.Heeds released turn.id := by
  have unstopped := heeds.live member
  have origin : (l'.transcript turn.id).origin = (l.transcript turn.id).origin := by
    rw [transcript]
    rfl
  have completion : (l'.transcript turn.id).completion =
      (l.transcript turn.id).completion ++ [token] := by
    rw [transcript]
    simp [drafted, Transcript.delivered, tokens]
  refine ⟨?_, fun live => ?_, fun gone => ?_⟩
  · rw [origin, config]
    exact heeds.short
  · rw [origin, config, completion]
    exact unstopped.grow (ending.symm.trans (registered.mp live))
  · obtain ⟨reason, ends⟩ := Option.ne_none_iff_exists'.mp fun none => gone (registered.mpr none)
    refine ⟨reason, ?_, ?_⟩
    · rw [transcript]
      simp [drafted, Transcript.delivered, ends]
    · rw [origin, config, completion]
      exact Or.inl (unstopped.ends (ending.symm.trans ends))

theorem Heeds.turned (takes : l.Takes released turn) : l'.Heeds released turn.id := by
  rcases takes with short | ⟨sample, same⟩
  · exact heeds.cut member config transcript registered short
  · rw [answer] at same
    split at same
    · exact heeds.answered member config transcript registered (congrArg Turn.tokens same)
        (congrArg Turn.ending same)
    · exact heeds.cut member config transcript registered
        ⟨congrArg Turn.tokens same, .error, congrArg Turn.ending same, Or.inl rfl⟩

end Turned

theorem Heeds.heard {turns : List Turn} {outputs : List Output} (heeds : l.Heeds released id)
    (heard : Heard l turns outputs l') (named : l.Named)
    (members : ∀ turn ∈ turns, turn.id ∈ l.requests.values) (distinct : (turns.map (·.id)).Nodup)
    (takes : ∀ turn ∈ turns, l.Takes released turn) : l'.Heeds released id := by
  by_cases spoke : id ∈ turns.map (·.id)
  · obtain ⟨turn, among, rfl⟩ := List.mem_map.mp spoke
    obtain ⟨transcript, registered, -⟩ := heard.own named members distinct among
    exact heeds.turned (members turn among) heard.config transcript registered (takes turn among)
  · obtain ⟨same, registered⟩ := heard.others named members distinct spoke
    exact heeds.congr heard.config same registered

end Ledger

namespace Scheduler

namespace Session

variable {ω : Type} {config : Config} {device : Device ω} {r r' : Session ω} {c : Call}
  {released : SeqId → FinishReason → Prop}

/-- What a call keeps: everybody who was taken in heeds its stop conditions. -/
structure Heeding (released : SeqId → FinishReason → Prop) (r : Session ω) : Prop where
  knows : ∀ id, r.TookIn id → r.scheduler.cache.Knows id
  requests : ∀ id ∈ r.scheduler.requests.values, r.TookIn id
  heeds : ∀ id, r.TookIn id → r.scheduler.ledger.quiet.Heeds released id

theorem Heeding.heard {turns : List Turn} {outputs : List Output} (heeding : r.Heeding released)
    (named : r.scheduler.ledger.quiet.Named)
    (heard : Heard r.scheduler.ledger.quiet turns outputs r'.scheduler.ledger.quiet)
    (taken : r'.taken = r.taken) (members : ∀ turn ∈ turns, turn.id ∈ r.scheduler.requests.values)
    (distinct : (turns.map (·.id)).Nodup)
    (takes : ∀ turn ∈ turns, r.scheduler.ledger.quiet.Takes released turn) : r'.Heeding released := by
  have tookIn : ∀ id, r'.TookIn id ↔ r.TookIn id := fun id => by rw [TookIn, TookIn, taken]
  refine ⟨fun id among => knows_of_count heard.count (heeding.knows id ((tookIn id).mp among)),
    fun id member => ?_, fun id among => ?_⟩
  · refine (tookIn id).mpr (heeding.requests id ?_)
    by_cases spoke : id ∈ turns.map (·.id)
    · obtain ⟨turn, among, rfl⟩ := List.mem_map.mp spoke
      exact members turn among
    · exact (heard.others named members distinct spoke).2.mp member
  · exact (heeding.heeds id ((tookIn id).mp among)).heard heard named members distinct takes

theorem Said.takes {turns : List Turn} (said : Said device r c turns) (notStep : c ≠ .step)
    (gives : ∀ reason, c = .releaseAll reason → ∀ id ∈ r.scheduler.requests.values, released id reason) :
    ∀ turn ∈ turns, r.scheduler.ledger.quiet.Takes released turn := by
  intro turn among
  cases said with
  | aborted name =>
      obtain ⟨_, _, rfl⟩ := List.mem_map.mp among
      exact Or.inl ⟨rfl, .cancelled, rfl, Or.inr (Or.inl rfl)⟩
  | released reason =>
      obtain ⟨id, member, rfl⟩ := List.mem_map.mp among
      exact Or.inl ⟨rfl, reason, rfl, Or.inr (Or.inr (gives _ rfl id member))⟩
  | taken => cases among
  | refused => cases among
  | stepped => exact absurd rfl notStep

theorem Heeding.told {slack : Prop} (heeding : r.Heeding released) (told : Told device r r' c)
    (orderly : r.scheduler.Orderly [] [] slack) (notStep : c ≠ .step)
    (gives : ∀ reason, c = .releaseAll reason → ∀ id ∈ r.scheduler.requests.values, released id reason) :
    r'.Heeding released := by
  cases told with
  | constructed constructed log taken =>
      have tookIn : ∀ id, r'.TookIn id ↔ r.TookIn id := fun id => by rw [TookIn, TookIn, taken]
      have requests := constructed.unmoved.requests
      refine ⟨fun id among => constructed.knows id (heeding.knows id ((tookIn id).mp among)),
        fun id member => (tookIn id).mpr (heeding.requests id (requests ▸ member)), fun id among => ?_⟩
      have before := (tookIn id).mp among
      refine (heeding.heeds id before).congr constructed.unmoved.config ?_ ?_
      · exact congrArg Sequence.transcript (constructed.others id (heeding.knows id before))
      · exact Iff.of_eq (congrArg (fun m : OrderedMap String SeqId => id ∈ m.values) requests)
  | @joined new called fresh took ledger log taken =>
      have tookIn := tookIn_append taken
      have values : r'.scheduler.ledger.quiet.requests.values =
          r.scheduler.ledger.quiet.requests.values ++ [new] := took.requests
      have transcript : r'.scheduler.ledger.quiet.transcript = r.scheduler.ledger.quiet.transcript := by
        rw [ledger]
        rfl
      refine ⟨fun id among => (took.knows id).mpr ?_, fun id member => ?_, fun id among => ?_⟩
      · rcases (tookIn id).mp among with before | rfl
        · exact heeding.knows id before
        · exact fresh.knows
      · rw [took.requests, List.mem_append, List.mem_singleton] at member
        exact (tookIn id).mpr (member.imp_left (heeding.requests id))
      · -- it may have been constructed long ago, but nothing was generated yet
        by_cases same : id = new
        · subst same
          have blank : (r.scheduler.ledger.quiet.transcript id).completion = [] := took.completion
          refine ⟨?_, fun _ => ?_, fun gone => absurd ?_ gone⟩
          · rw [transcript]
            exact Nat.lt_of_lt_of_eq (checkAdmission_ok took.accepted).2
              (congrArg Config.maxLength took.config.symm)
          · rw [transcript, blank]
            exact .nil _ _ _
          · rw [values]
            exact List.mem_append_right _ List.mem_cons_self
        · refine (heeding.heeds id (((tookIn id).mp among).resolve_right same)).congr took.config
            (congrFun transcript id) ?_
          rw [values, List.mem_append, List.mem_singleton, or_iff_left same]
  | heard said heard _ taken members distinct =>
      exact heeding.heard orderly.named heard taken members distinct (said.takes notStep gives)

theorem Heeding.step (heeding : r.Heeding released) (resilient : r.Resilient config)
    (bounded : device.Bounded config) : (r.perform device .step).Heeding released := by
  obtain ⟨orderly, rfl, -⟩ := resilient
  obtain ⟨p, m, prepared, planned, -⟩ := prepare_returns orderly
  obtain ⟨-, quiet⟩ := prepare_ledger orderly p m prepared
  have requests : m.requests = r.scheduler.requests := congrArg Ledger.requests quiet
  have members : ∀ turns : List Turn, (turns.map (·.id)).Sublist p.batch.sequences →
      ∀ turn ∈ turns, turn.id ∈ r.scheduler.requests.values := by
    intro turns among turn taken
    have member := among.subset (List.mem_map_of_mem taken)
    exact requests ▸ planned.orderly.mem_values .running (planned.running _ member)
  rcases Driven.step_outcome orderly bounded prepared with
    ⟨-, returns⟩ | ⟨samples, before, sample, -, count, first, fails⟩
  · obtain ⟨result, d, run, -, p', m', turns, outputs, prepared', -, -, heard, batched, -⟩ :=
      returns.also (Driven.step_heard orderly)
    cases prepared.symm.trans prepared'
    have same : r.perform device .step =
        { r with driven := d, handed := r.handed ++ result.outputs } := by rw [perform, run]
    rw [same]
    refine heeding.heard orderly.named heard.quiet rfl (members turns batched.among)
      (planned.nodup.sublist batched.among) fun turn among => ?_
    refine (batched.each turn among).imp_left fun failed => ?_
    exact ⟨failed.tokens, .error, failed.ending, Or.inl rfl⟩
  · -- only those in front of the number that is no token have had turns
    obtain ⟨fault, d, run, -, ⟨-, -, -, outputs, heard⟩, -⟩ := fails
    have same : r.perform device .step = { r with driven := d } := by rw [perform, run]
    obtain ⟨id, after, place⟩ := first.place
    have names := Batch.sequences_of_zip count place
    have among : ((r.scheduler.ledger.quiet.answers before).map (·.id)).Sublist p.batch.sequences := by
      rw [Ledger.answers_ids, names, List.map_append]
      exact List.sublist_append_left _ _
    rw [same]
    refine heeding.heard orderly.named heard.quiet rfl (members _ among)
      (planned.nodup.sublist among) fun turn taken => ?_
    obtain ⟨e, _, rfl⟩ := List.mem_map.mp taken
    exact Or.inr ⟨e.2, by rw [Ledger.answer_id]; rfl⟩

theorem Heeding.perform (heeding : r.Heeding released) (resilient : r.Resilient config)
    (bounded : device.Bounded config) (proper : c.Proper r.scheduler)
    (gives : ∀ reason, c = .releaseAll reason → ∀ id ∈ r.scheduler.requests.values, released id reason) :
    (r.perform device c).Heeding released := by
  by_cases step : c = .step
  · exact step ▸ heeding.step resilient bounded
  · exact heeding.told (told_of_proper device resilient.orderly proper step) resilient.orderly
      step gives

/-- One of some calls gives its reason to a request, which is live then. -/
def ReleasedFor (device : Device ω) (r : Session ω) (calls : List Call) (id : SeqId)
    (reason : FinishReason) : Prop :=
  ∃ before, before ++ [.releaseAll reason] <+: calls ∧
    id ∈ (r.performAll device before).scheduler.requests.values

theorem AllProper.heeding {calls : List Call} (made : AllProper device r calls)
    (heeding : r.Heeding released) (resilient : r.Resilient config) (bounded : device.Bounded config)
    (gives : ∀ id reason, ReleasedFor device r calls id reason → released id reason) :
    (r.performAll device calls).Heeding released := by
  induction calls generalizing r with
  | nil => exact heeding
  | cons c rest ih =>
      obtain ⟨proper, made⟩ := made
      refine ih made (heeding.perform resilient bounded proper ?_)
        (perform_resilient resilient bounded proper) ?_
      · rintro reason rfl id member
        exact gives id reason ⟨[], List.prefix_append _ rest, member⟩
      · rintro id reason ⟨before, start, member⟩
        exact gives id reason ⟨c :: before, (List.prefix_cons_inj c).mpr start, member⟩

end Session

end Scheduler

end PagedServing
