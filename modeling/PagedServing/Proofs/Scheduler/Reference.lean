import PagedServing.Proofs.Scheduler.Sessions
import PagedServing.Proofs.Scheduler.Termination

/-! # The reference loop

On a device that answers every history by a function, one sequence after the other goes the way of
a loop that appends the answer to the history until a stop condition holds. What else is scheduled,
and how, cannot be told from the tokens that are handed over.
-/

namespace PagedServing

theorem length_lt_of_stopping {eos : Int} {maxLength : Nat} {sampling : Sampling}
    {prompt completion : List Int} (goesOn : stopping eos maxLength sampling prompt completion = none) :
    completion.length < sampling.maxTokens := by
  by_contra full
  simp only [stopping] at goesOn
  split_ifs at goesOn with stops limit
  exact limit (Or.inl (Nat.le_of_not_lt full))

/-- From a completion on, the answers to the history are appended until a stop condition holds. -/
def reference (f : List Int → Int) (eos : Int) (maxLength : Nat) (sampling : Sampling)
    (prompt completion : List Int) : List Int × FinishReason :=
  let next := completion ++ [f (prompt ++ completion)]
  match _ : stopping eos maxLength sampling prompt next with
  | some reason => (next, reason)
  | none => reference f eos maxLength sampling prompt next
termination_by sampling.maxTokens - completion.length
decreasing_by
  rename_i goesOn
  have room := length_lt_of_stopping goesOn
  simp only [next, List.length_append, List.length_singleton] at room ⊢
  omega

section

variable {f : List Int → Int} {eos : Int} {maxLength : Nat} {sampling : Sampling}
  {prompt completion : List Int} {reason : FinishReason}

theorem reference_stops
    (stops : stopping eos maxLength sampling prompt (completion ++ [f (prompt ++ completion)]) =
      some reason) :
    reference f eos maxLength sampling prompt completion =
      (completion ++ [f (prompt ++ completion)], reason) := by
  rw [reference]
  split
  · rename_i stops'
    rw [Option.some.inj (stops'.symm.trans stops)]
  · rename_i goesOn
    cases goesOn.symm.trans stops

theorem reference_goesOn
    (goesOn : stopping eos maxLength sampling prompt (completion ++ [f (prompt ++ completion)]) =
      none) :
    reference f eos maxLength sampling prompt completion =
      reference f eos maxLength sampling prompt (completion ++ [f (prompt ++ completion)]) := by
  rw [reference]
  split
  · rename_i stops
    cases stops.symm.trans goesOn
  · rfl

end

/-- The device answers every history by a function. -/
def Device.Computes {ω : Type} (device : Device ω) (f : List Int → Int) : Prop :=
  ∀ batch sequences w, (device.execute batch sequences w).1.result =
    .ok (sequences.map fun q => { token := f q.tokens })

theorem Device.Computes.valid {ω : Type} {device : Device ω} {f : List Int → Int}
    (computes : device.Computes f) (natural : ∀ history, 0 ≤ f history ∧ f history < 2 ^ 31) :
    device.Valid := by
  intro batch sequences w samples answer sample among
  rw [computes] at answer
  cases answer
  obtain ⟨q, _, rfl⟩ := List.mem_map.mp among
  exact fun _ => natural q.tokens

/-- The outputs up to the first that tells why a request ended. -/
def Output.upToLast : List Output → List Output
  | [] => []
  | o :: rest => if o.isLast then [o] else o :: upToLast rest

theorem Gone.upToLast {own rest : List Output} {t : Transcript} (gone : Gone own t) :
    Output.upToLast (own ++ rest) = own := by
  obtain ⟨-, -, front, last, rfl, unended, -, ended⟩ := gone
  clear * - unended ended
  induction front with
  | nil => simp [Output.upToLast, Output.isLast, ended]
  | cons o front ih =>
      have goesOn : o.reason = none := unended o List.mem_cons_self
      have others := ih fun o among => unended o (List.mem_cons_of_mem _ among)
      simp only [List.cons_append, Output.upToLast, Output.isLast, goesOn]
      exact congrArg (o :: ·) others

namespace Ledger

variable {l l' : Ledger} {id : SeqId} {f : List Int → Int}

/-- The tokens of a sequence. -/
def history (l : Ledger) (id : SeqId) : List Int :=
  (l.transcript id).origin.prompt ++ (l.transcript id).completion

/-- Where the reference loop leads a sequence from a completion on. -/
def loop (l : Ledger) (f : List Int → Int) (id : SeqId) (completion : List Int) :
    List Int × FinishReason :=
  reference f l.config.eos l.config.maxLength (l.transcript id).origin.sampling
    (l.transcript id).origin.prompt completion

/-- A request is on the way of the reference loop, and a sequence that has ended is at its end. -/
def Agrees (l : Ledger) (f : List Int → Int) (id : SeqId) : Prop :=
  if id ∈ l.requests.values then l.loop f id (l.transcript id).completion = l.loop f id []
  else ∃ reason, (l.transcript id).reason = some reason ∧
    l.loop f id [] = ((l.transcript id).completion, reason)

theorem Agrees.congr (agrees : l.Agrees f id) (config : l'.config = l.config)
    (same : l'.transcript id = l.transcript id)
    (registered : id ∈ l'.requests.values ↔ id ∈ l.requests.values) : l'.Agrees f id := by
  unfold Agrees loop at *
  rw [same, config]
  simpa only [registered] using agrees

theorem Agrees.answered (agrees : l.Agrees f id) (member : id ∈ l.requests.values)
    (config : l'.config = l.config)
    (transcript : l'.transcript id =
      (l.drafted (l.answer id { token := f (l.history id) })).delivered)
    (registered : id ∈ l'.requests.values ↔
      (l.answer id { token := f (l.history id) }).ending = none) : l'.Agrees f id := by
  let turn := l.answer id { token := f (l.history id) }
  let next := (l.transcript id).completion ++ [f (l.history id)]
  have ending : turn.ending = stopping l.config.eos l.config.maxLength
      (l.transcript id).origin.sampling (l.transcript id).origin.prompt next := rfl
  have completion : (l'.transcript id).completion = next := by
    rw [transcript]
    rfl
  have same : l'.loop f id = l.loop f id := by
    unfold loop
    rw [transcript, config]
    rfl
  have before : l.loop f id (l.transcript id).completion = l.loop f id [] := by
    simpa only [Agrees, if_pos member] using agrees
  unfold Agrees
  cases stops : turn.ending with
  | none =>
      rw [if_pos (registered.mpr stops), completion, same, ← before]
      exact (reference_goesOn (ending.symm.trans stops)).symm
  | some reason =>
      rw [if_neg fun left => by cases stops.symm.trans (registered.mp left)]
      refine ⟨reason, ?_, ?_⟩
      · rw [transcript]
        show turn.ending.or (l.transcript id).reason = some reason
        rw [stops, Option.some_or]
      · rw [same, ← before, completion]
        exact reference_stops (ending.symm.trans stops)

end Ledger

namespace Scheduler.Session

variable {ω : Type} {config : Config} {device : Device ω} {r r' : Session ω} {c : Call} {id : SeqId}
  {mark : Nat} {f : List Int → Int}

/-- A request is not given up. -/
def Unharmed (id : SeqId) (r : Session ω) : Call → Prop
  | .abort name => r.scheduler.requests.get? name ≠ some id
  | .releaseAll _ => id ∉ r.scheduler.requests.values
  | _ => True

instance (id : SeqId) (r : Session ω) : (c : Call) → Decidable (Unharmed id r c)
  | .create _ => isTrue trivial
  | .add _ => isTrue trivial
  | .abort name => inferInstanceAs (Decidable (r.scheduler.requests.get? name ≠ some id))
  | .releaseAll _ => inferInstanceAs (Decidable (id ∉ r.scheduler.requests.values))
  | .takePending => isTrue trivial
  | .step => isTrue trivial

/-- Some outputs from a place in the order of all, under the name of a sequence. -/
def since (r : Session ω) (id : SeqId) (mark : Nat) (outputs : List Output) : List Output :=
  (outputs.drop mark).filter (·.requestId = (r.scheduler.sequence id).requestId)

/-- The tokens that the caller of a sequence was handed since it was taken in, and why it ended. -/
def received (r : Session ω) (id : SeqId) (mark : Nat) : List Int × Option FinishReason :=
  let own := Output.upToLast (r.since id mark r.handed)
  (own.flatMap (·.tokens), own.getLast?.bind (·.reason))

theorem Said.answer {turns : List Turn} {turn : Turn} (said : Said device r c turns)
    (computes : device.Computes f) (unharmed : Unharmed turn.id r c) (among : turn ∈ turns) :
    c = .step ∧ turn = r.scheduler.ledger.answer turn.id
      { token := f (r.scheduler.ledger.history turn.id) } := by
  cases said with
  | aborted name =>
      obtain ⟨id, found, rfl⟩ := List.mem_map.mp among
      exact absurd (Option.mem_toList.mp found) unharmed
  | released reason =>
      obtain ⟨id, member, rfl⟩ := List.mem_map.mp among
      exact absurd member unharmed
  | taken => cases among
  | refused => cases among
  | @stepped p m turns prepared quiet _ answers =>
      rw [answers _ (computes ..) (by simp [members, Batch.size])] at among
      obtain ⟨⟨id, sample⟩, paired, rfl⟩ := List.mem_map.mp among
      rw [members, List.map_map, ← List.map_prod_left_eq_zip] at paired
      obtain ⟨other, _, same⟩ := List.mem_map.mp paired
      cases same
      have transcript : (m.sequence id).transcript = r.scheduler.ledger.transcript id :=
        congrFun (congrArg Ledger.transcript quiet) id
      have tokens : (m.sequence id).tokens = r.scheduler.ledger.history id := by
        rw [Ledger.history, ← transcript]
        rfl
      rw [Ledger.answer_id, Function.comp_apply, tokens]
      exact ⟨rfl, rfl⟩

/-- What holds throughout a session of a request that is not given up: it goes the way of the
    reference loop, and all that was heard of it was handed over. -/
structure Watched (f : List Int → Int) (r : Session ω) (id : SeqId) (mark : Nat) : Prop where
  admitted : r.Admitted id
  agrees : r.scheduler.ledger.Agrees f id
  marked : mark ≤ r.log.length
  heard : ∃ own rest, r.since id mark r.log = own ++ rest ∧ r.scheduler.ledger.Voiced id own ∧
    (id ∈ r.scheduler.requests.values → rest = []) ∧ own <+: r.since id mark r.handed

theorem since_append (r : Session ω) (id : SeqId) {mark : Nat} {outputs : List Output}
    (marked : mark ≤ outputs.length) (more : List Output) : r.since id mark (outputs ++ more) =
      r.since id mark outputs ++ more.filter (·.requestId = r.scheduler.ledger.name id) := by
  rw [since, List.drop_append_of_le_length marked, List.filter_append]
  rfl

theorem since_congr (name : r'.scheduler.ledger.name id = r.scheduler.ledger.name id)
    (outputs : List Output) : r'.since id mark outputs = r.since id mark outputs := by
  show (outputs.drop mark).filter (·.requestId = r'.scheduler.ledger.name id) = _
  rw [name]
  rfl

theorem Told.agrees (told : Told device r r' c) (regular : r.Regular config) (admitted : r.Admitted id)
    (same : r'.scheduler.config = r.scheduler.config) (computes : device.Computes f)
    (unharmed : Unharmed id r c) (agrees : r.scheduler.ledger.Agrees f id) :
    r'.scheduler.ledger.Agrees f id := by
  rcases told.turn regular admitted with ⟨transcript, registered, _⟩ |
    ⟨turns, turn, _, said, among, rfl, member, _, _, transcript, registered⟩
  · exact agrees.congr same transcript registered
  · obtain ⟨-, answer⟩ := said.answer computes unharmed among
    rw [answer] at transcript registered
    rw [Ledger.answer_id] at transcript
    exact agrees.answered member same transcript registered

theorem Watched.told (watched : r.Watched f id mark) (told : Told device r r' c)
    (regular : r.Regular config) (onward : r.scheduler.Onward r'.scheduler)
    (same : r'.scheduler.config = r.scheduler.config) (handed : r.handed <+: r'.handed)
    (stepped : c = .step → r'.handed = r'.log) (computes : device.Computes f)
    (unharmed : Unharmed id r c) : r'.Watched f id mark := by
  obtain ⟨admitted, agrees, marked, own, rest, log, voiced, still, delivered⟩ := watched
  obtain ⟨more, log', _⟩ := told.speakers
  have voiced' := told.voiced regular admitted log' voiced
  have name : r'.scheduler.ledger.name id = r.scheduler.ledger.name id :=
    congrArg Origin.requestId (told.origin (admitted.knows regular)).2
  have grown : r'.since id mark r'.log =
      own ++ rest ++ more.filter (·.requestId = r.scheduler.ledger.name id) := by
    rw [since_congr name, log', since_append r id marked, log]
  have before : own <+: r'.since id mark r'.handed := by
    rw [since_congr name]
    exact delivered.trans ((handed.drop mark).filter _)
  have marked' : mark ≤ r'.log.length := by
    rw [log', List.length_append]
    omega
  have agrees' := told.agrees regular admitted same computes unharmed agrees
  rcases told.turn regular admitted with ⟨transcript, registered, more', log'', silent⟩ |
    ⟨turns, turn, more', said, among, rfl, member, log'', _, _, _⟩
  all_goals obtain rfl := List.append_cancel_left (log'.symm.trans log'')
  · refine ⟨admitted.onward onward, agrees', marked', own,
      rest ++ more.filter (·.requestId = r.scheduler.ledger.name id), ?_, ?_, ?_, before⟩
    · rw [grown, List.append_assoc]
    · exact voiced.congr transcript registered
    · intro member
      rw [still (registered.mp member), silent (registered.mp member)]
      rfl
  · obtain ⟨step, -⟩ := said.answer computes unharmed among
    rw [if_pos member] at voiced'
    rw [still member, List.append_nil] at grown
    refine ⟨admitted.onward onward, agrees', marked', _, [], ?_, voiced', fun _ => rfl, ?_⟩
    · rw [grown, List.append_nil]
    · rw [stepped step, grown]

theorem watched_of_joined (member : id ∈ r.scheduler.requests.values)
    (going : Going [] (r.scheduler.ledger.transcript id)) : r.Watched f id r.log.length := by
  have nothing : ([] : List Int) = (r.scheduler.ledger.transcript id).completion := going.tokens
  refine ⟨Or.inl member, ?_, Nat.le_refl _, [], [], ?_, ?_, fun _ => rfl, List.nil_prefix⟩
  · rw [Ledger.Agrees, if_pos (show id ∈ r.scheduler.ledger.requests.values from member), ← nothing]
  · simp [since]
  · rw [Ledger.Voiced, if_pos (show id ∈ r.scheduler.ledger.requests.values from member)]
    exact going

theorem Leads.watched {threshold : Int} {w : ω}
    (run : Leads device (Unharmed id) (opened config threshold w) r) (computes : device.Computes f)
    (valid : device.Valid) (taken : (id, mark) ∈ r.taken) : r.Watched f id mark := by
  induction run with
  | refl => cases taken
  | @call r c before proper unharmed ih =>
      have regular := (before.regular (opened_regular config threshold w) valid).1
      have told := perform_told regular valid proper
      obtain ⟨regular', onward⟩ := perform_onward regular valid proper
      have again : (id, mark) ∈ r.taken → (r.perform device c).Watched f id mark := fun old =>
        (ih old).told told regular onward (regular'.config.trans regular.config.symm)
          (handed_perform device r c) (fun step => step ▸ handed_step regular.orderly valid) computes
          unharmed
      rcases told.taken regular with ⟨same, _⟩ | ⟨new, _, joined, log, _, requests, _, going⟩
      · exact again (same ▸ taken)
      · rw [joined, List.mem_append, List.mem_singleton] at taken
        rcases taken with old | new
        · exact again old
        · cases new
          exact log ▸ watched_of_joined (by simp [requests]) going

theorem Watched.received (watched : r.Watched f id mark) (absent : id ∉ r.scheduler.requests.values) :
    ∃ tokens reason, r.scheduler.ledger.loop f id [] = (tokens, reason) ∧
      r.received id mark = (tokens, some reason) := by
  obtain ⟨-, agrees, -, own, rest, -, voiced, -, more, handed⟩ := watched
  have absent : id ∉ r.scheduler.ledger.requests.values := absent
  rw [Ledger.Agrees, if_neg absent] at agrees
  rw [Ledger.Voiced, if_neg absent] at voiced
  obtain ⟨reason, ended, loop⟩ := agrees
  obtain ⟨front, last, split, _, final, _⟩ := voiced.last
  refine ⟨_, reason, loop, ?_⟩
  have own : Output.upToLast (r.since id mark r.handed) = own := handed ▸ voiced.upToLast
  simp only [Session.received, own]
  refine Prod.ext voiced.tokens ?_
  simp [split, final, ended]

/-- A session on a device that computes `f`, in which a request was taken in, never given up, and
    nobody is left at last. -/
structure Completed (f : List Int → Int) (config : Config) (device : Device ω) (r : Session ω)
    (id : SeqId) (mark : Nat) : Prop where
  computes : device.Computes f
  run : ∃ threshold w, Leads device (Unharmed id) (opened config threshold w) r
  taken : (id, mark) ∈ r.taken
  idle : r.scheduler.isIdle = true

theorem Completed.received (completed : Completed f config device r id mark)
    (natural : ∀ history, 0 ≤ f history ∧ f history < 2 ^ 31) :
    ∃ tokens reason, reference f config.eos config.maxLength (r.scheduler.sequence id).sampling
        (r.scheduler.sequence id).prompt [] = (tokens, reason) ∧
      r.received id mark = (tokens, some reason) := by
  obtain ⟨computes, ⟨threshold, w, run⟩, taken, idle⟩ := completed
  have valid := computes.valid natural
  have regular := (run.regular (opened_regular config threshold w) valid).1
  have nobody := (isIdle_iff regular.orderly).mp idle
  obtain ⟨tokens, reason, loop, received⟩ := (run.watched computes valid taken).received (by simp [nobody])
  refine ⟨tokens, reason, ?_, received⟩
  rw [← regular.config, ← loop]
  rfl

/-- Whatever else is scheduled, and however: a request gets the tokens and the reason of its end
    that the reference loop ends with. So it gets the same in any two sessions. -/
theorem results_agree (natural : ∀ history, 0 ≤ f history ∧ f history < 2 ^ 31)
    {ω' : Type} {config' : Config} {device' : Device ω'} {r' : Session ω'} {id' : SeqId} {mark' : Nat}
    (completed : Completed f config device r id mark)
    (completed' : Completed f config' device' r' id' mark')
    (eos : config'.eos = config.eos) (maxLength : config'.maxLength = config.maxLength)
    (prompt : (r'.scheduler.sequence id').prompt = (r.scheduler.sequence id).prompt)
    (sampling : (r'.scheduler.sequence id').sampling = (r.scheduler.sequence id).sampling) :
    r'.received id' mark' = r.received id mark ∧
      ∃ tokens reason, reference f config.eos config.maxLength (r.scheduler.sequence id).sampling
          (r.scheduler.sequence id).prompt [] = (tokens, reason) ∧
        r.received id mark = (tokens, some reason) := by
  obtain ⟨tokens, reason, loop, received⟩ := completed.received natural
  obtain ⟨tokens', reason', loop', received'⟩ := completed'.received natural
  rw [eos, maxLength, prompt, sampling, loop] at loop'
  cases loop'
  exact ⟨received'.trans received.symm, tokens, reason, loop, received⟩

/-- A device that computes a function. -/
def computing (f : List Int → Int) : Device Unit where
  execute _ sequences w := ({ result := .ok (sequences.map fun q => { token := f q.tokens }) }, w)

theorem Leads.sampling {may : Session ω → Call → Prop} (leads : Leads device may r r')
    (regular : r.Regular config) (valid : device.Valid) (knows : r.scheduler.cache.Knows id) :
    (r'.scheduler.sequence id).sampling = (r.scheduler.sequence id).sampling :=
  congrArg Origin.sampling (leads.origin regular valid knows).2

/-- One request alone, and the same beside another one that takes its blocks away. -/
theorem results_agree_beside :
    let device := computing fun history => history.length % 10
    let alone := (opened (smallConfig .recompute false) 20 ()).perform device
      (.create { prompt := [5], blockSize := 1 })
    let beside := ((opened (smallConfig .swap true) 20 ()).perform device
      (.create { prompt := [5, 6], blockSize := 1 })).perform device
        (.create { prompt := [5], blockSize := 1 })
    let r := alone.performAll device (.add 0 :: .replicate 7 .step)
    let r' := beside.performAll device (.add 0 :: .add 1 :: .replicate 13 .step)
    0 < r'.scheduler.preemptions ∧ r'.received 1 0 = r.received 0 0 ∧
      r.received 0 0 = ([1, 2, 3, 4, 5, 6, 7], some .length) := by
  intro device alone beside r r'
  have natural : ∀ history : List Int, 0 ≤ (history.length % 10 : Int) ∧
      history.length % 10 < (2 : Int) ^ 31 := fun history => by omega
  have computes : device.Computes fun history => history.length % 10 := fun _ _ _ => rfl
  have valid := computes.valid natural
  have regular : alone.Regular (smallConfig .recompute false) :=
    (perform_onward (opened_regular _ 20 ()) valid (by decide)).1
  have regular' : beside.Regular (smallConfig .swap true) :=
    (perform_onward (perform_onward (opened_regular _ 20 ()) valid (by decide)).1 valid (by decide)).1
  obtain ⟨made, taken, idle⟩ : Allowed device (Unharmed 0) alone (.add 0 :: .replicate 7 .step) ∧
      (0, 0) ∈ r.taken ∧ r.scheduler.isIdle = true := by decide +kernel
  obtain ⟨made', taken', idle', preempted⟩ :
      Allowed device (Unharmed 1) beside (.add 0 :: .add 1 :: .replicate 13 .step) ∧
      (1, 0) ∈ r'.taken ∧ r'.scheduler.isIdle = true ∧ 0 < r'.scheduler.preemptions := by
    decide +kernel
  have run : Leads device (Unharmed 0) (opened (smallConfig .recompute false) 20 ()) r :=
    (Leads.call .refl (by decide) trivial).trans made.leads
  have run' : Leads device (Unharmed 1) (opened (smallConfig .swap true) 20 ()) r' :=
    (Leads.call (.call .refl (by decide) trivial) (by decide) trivial).trans made'.leads
  have completed : Completed (fun history => history.length % 10) (smallConfig .recompute false) device
      r 0 0 := ⟨computes, ⟨20, (), run⟩, taken, idle⟩
  have completed' : Completed (fun history => history.length % 10) (smallConfig .swap true) device
      r' 1 0 := ⟨computes, ⟨20, (), run'⟩, taken', idle'⟩
  have knows : alone.scheduler.cache.Knows 0 := by unfold Cache.Knows; decide
  have knows' : beside.scheduler.cache.Knows 1 := by unfold Cache.Knows; decide
  have kept := made.leads.sampling regular valid knows
  have kept' := made'.leads.sampling regular' valid knows'
  have sampling : (alone.scheduler.sequence 0).sampling = .standard := rfl
  have sampling' : (beside.scheduler.sequence 1).sampling = .standard := rfl
  obtain ⟨same, _⟩ :=
    results_agree natural completed completed' rfl rfl (by decide +kernel)
      ((kept'.trans (sampling'.trans sampling.symm)).trans kept.symm)
  exact ⟨preempted, same, by decide +kernel⟩

/-- A token beyond a word of 32 bits cannot be hashed. A request whose prompt has one is served as
    long as blocks are not shared, and vanishes from every queue otherwise. -/
theorem results_differ_beyond_word :
    let device := computing fun _ => 7
    let calls : List Call :=
      [.create { prompt := [2147483648], blockSize := 1 }, .add 0] ++ .replicate 7 .step
    let r := (opened (smallConfig .recompute false) 20 ()).performAll device calls
    let r' := (opened (smallConfig .recompute true) 20 ()).performAll device calls
    device.Computes (fun _ => 7) ∧ (0, 0) ∈ r.taken ∧ (0, 0) ∈ r'.taken ∧
      r.scheduler.isIdle = true ∧ r'.scheduler.isIdle = true ∧
      (r.scheduler.sequence 0).prompt = (r'.scheduler.sequence 0).prompt ∧
      r.received 0 0 = (.replicate 7 7, some .length) ∧ r'.received 0 0 = ([], none) :=
  ⟨fun _ _ _ => rfl, by decide +kernel⟩

end Scheduler.Session

end PagedServing
