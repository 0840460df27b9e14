import PagedServing.Proofs.Scheduler.Calls
import PagedServing.Proofs.Scheduler.Progress

/-! # Sessions

In a session its callers construct requests, hand them in, give them up, run iterations and take
outputs, in any order, and keep what they are handed. Each call either constructs a sequence, or
registers a request, or lets sequences have turns.
-/

namespace PagedServing.Scheduler

variable {ω : Type} {config : Config} {device : Device ω} {s s' s'' : Scheduler} {id : SeqId}

/-- Requests stay registered until they have ended, and whatever has ended stays as it is. -/
structure Onward (s s' : Scheduler) : Prop where
  registered : ∀ id ∈ s.requests.values,
    id ∈ s'.requests.values ∨ (s'.cache.sequence id).isFinished = true
  ended : ∀ id, (s.cache.sequence id).isFinished = true → s'.cache.sequence id = s.cache.sequence id

theorem Onward.refl (s : Scheduler) : s.Onward s :=
  ⟨fun _ => Or.inl, fun _ _ => rfl⟩

theorem Onward.trans (first : s.Onward s') (second : s'.Onward s'') : s.Onward s'' := by
  constructor
  case registered =>
    intro id member
    rcases first.registered id member with member' | terminal
    · exact second.registered id member'
    · exact Or.inr (second.ended id terminal ▸ terminal)
  case ended =>
    intro id terminal
    have same := first.ended id terminal
    exact (second.ended id (same ▸ terminal)).trans same

theorem Orderly.unregistered {grown : List SeqId} {slack : Prop}
    (orderly : s.Orderly [] grown slack) (terminal : (s.cache.sequence id).isFinished = true) :
    id ∉ s.requests.values := by
  intro member
  have queued := (orderly.stands_iff member _).mpr rfl
  unfold Sequence.isFinished at terminal
  cases status : (s.cache.sequence id).status <;> rw [status] at queued terminal
  case finished => cases queued
  case cancelled => cases queued
  all_goals cases terminal

theorem Orderly.named {grown : List SeqId} {slack : Prop} (orderly : s.Orderly [] grown slack) :
    s.ledger.quiet.Named :=
  ⟨orderly.registered.keys_nodup, orderly.registered.named⟩

theorem knows_of_terminal (terminal : (s.cache.sequence id).isFinished = true) : s.cache.Knows id := by
  by_contra unknown
  rw [Cache.sequence_of_unknown unknown] at terminal
  cases terminal

theorem Spared.ended (spared : Spared s s' id)
    (terminal : (s.cache.sequence id).isFinished = true) :
    s'.cache.sequence id = s.cache.sequence id := by
  refine spared.kept fun preempted => ?_
  simp [Sequence.isFinished, preempted, Status.isTerminal] at terminal

theorem Thinned.onward {allowed : FinishReason → Prop} (thinned : s.Thinned s' allowed)
    (orderly : s.Orderly [] []) : s.Onward s' where
  registered id member := (thinned.each id).imp (·.registered member) (·.terminal)
  ended id terminal := (thinned.others id (orderly.unregistered terminal)).ended terminal

theorem Constructed.onward (constructed : s.Constructed s') : s.Onward s' where
  registered _ member := Or.inl (constructed.unmoved.requests ▸ member)
  ended id terminal := constructed.others id (knows_of_terminal terminal)

theorem TakenUp.onward (taken : s.TakenUp s' id) : s.Onward s' where
  registered _ member := Or.inl (taken.requests ▸ List.mem_append_left _ member)
  ended other _ := taken.sequences other

theorem Served.onward (served : s.Served s') (orderly : s.Orderly [] []) : s.Onward s' := by
  cases served with
  | constructed takes => exact (create_orderly orderly takes).2.2.onward
  | taken fresh =>
      rcases (add_orderly orderly fresh).2.2 with kept | taken
      · exact kept.onward orderly
      · exact taken.onward
  | aborted name =>
      obtain ⟨_, _, _, thinned⟩ := (abort_returns orderly name).after
      exact thinned.onward orderly
  | released reason =>
      obtain ⟨_, _, _, thinned, _⟩ := (releaseAll_returns orderly reason).after
      exact thinned.onward orderly

theorem Driven.Round.onward {d d' : Driven ω} (round : Driven.Round device d d')
    (orderly' : d'.scheduler.Orderly [] []) : d.scheduler.Onward d'.scheduler := by
  obtain @⟨p, m, _, planned, assembled, _, turned⟩ := round
  have steady := assembled.steady
  constructor
  case registered =>
    intro id member
    rw [← steady.requests] at member
    by_cases among : id ∈ p.batch.sequences
    · rcases turned.each id among with past | wentOn
      · exact Or.inr past.terminal
      · have knows : d'.scheduler.cache.Knows id := by
          by_contra unknown
          have status := wentOn.status
          rw [Cache.sequence_of_unknown unknown] at status
          cases status
        have queued := orderly'.lined.queued .running id knows wentOn.status (Or.inl rfl)
          List.not_mem_nil
        exact Or.inl (orderly'.mem_values .running queued)
    · exact Or.inl ((turned.others id among).registered member)
  case ended =>
    intro id terminal
    have same := steady.ended id terminal
    have terminal := same ▸ terminal
    refine Eq.trans ((turned.others id fun among => ?_).ended terminal) same
    have status := (planned.orderly.lined.running id (planned.running id among)).2
    simp [Sequence.isFinished, status, Status.isTerminal] at terminal

/-- What the callers of a scheduler ask of it. -/
inductive Call where
  | create (d : Draft)
  | add (id : SeqId)
  | abort (name : String)
  | releaseAll (reason : FinishReason)
  | takePending
  | step

/-- A call is proper if the tokens of a draft can be hashed where that is needed, and if only fresh
    sequences are handed in. -/
def Call.Proper (s : Scheduler) : Call → Prop
  | create d => s.Takes d
  | add id => s.Fresh id
  | _ => True

instance (s : Scheduler) (d : Draft) : Decidable (s.Takes d) :=
  decidable_of_iff (d.blockSize = s.config.blockSize ∧ s.cache.Hashes d.prompt)
    ⟨fun ⟨blockSize, hashes⟩ => ⟨blockSize, hashes⟩, fun ⟨blockSize, hashes⟩ => ⟨blockSize, hashes⟩⟩

instance (s : Scheduler) (id : SeqId) : Decidable (s.Fresh id) :=
  decidable_of_iff
    (id < s.cache.sequences.nextId ∧ (s.cache.sequence id).status = .waiting ∧ id ∉ s.waiting)
    ⟨fun ⟨knows, status, outside⟩ => ⟨knows, status, outside⟩,
      fun ⟨knows, status, outside⟩ => ⟨knows, status, outside⟩⟩

instance (s : Scheduler) : (c : Call) → Decidable (c.Proper s)
  | .create d => inferInstanceAs (Decidable (s.Takes d))
  | .add id => inferInstanceAs (Decidable (s.Fresh id))
  | .abort _ => isTrue trivial
  | .releaseAll _ => isTrue trivial
  | .takePending => isTrue trivial
  | .step => isTrue trivial

/-- A scheduler on a device, and what its callers keep. -/
structure Session (ω : Type) where
  driven : Driven ω
  /-- The sequences that were taken in, each with the length of the log at that time. -/
  taken : List (SeqId × Nat) := []
  /-- The outputs that were handed over, in order. -/
  handed : List Output := []

namespace Session

/-- The scheduler of a session. -/
def scheduler (r : Session ω) : Scheduler :=
  r.driven.scheduler

/-- All outputs that came up, in order: those handed over, and those still pending. -/
def log (r : Session ω) : List Output :=
  r.handed ++ r.scheduler.pending

/-- The session with another scheduler. -/
def become (r : Session ω) (s : Scheduler) : Session ω :=
  { r with driven := { r.driven with scheduler := s } }

/-- A call is answered. What is refused leaves no trace but in the journal. -/
def perform (device : Device ω) (r : Session ω) : Call → Session ω
  | .create d => r.become ((Scheduler.create d).after r.scheduler)
  | .add id =>
    match Scheduler.add id r.scheduler with
    | .ok _ s => { r.become s with taken := r.taken ++ [(id, r.log.length)] }
    | .error _ s => r.become s
  | .abort name => r.become ((Scheduler.abort name).after r.scheduler)
  | .releaseAll reason => r.become ((Scheduler.releaseAll reason).after r.scheduler)
  | .takePending =>
    match Scheduler.takePending r.scheduler with
    | .ok outputs s => { r.become s with handed := r.handed ++ outputs }
    | .error _ s => r.become s
  | .step =>
    match Driven.step (some device) r.driven with
    | .ok result d => { r with driven := d, handed := r.handed ++ result.outputs }
    | .error _ d => { r with driven := d }

/-- A session begins with an idle scheduler. -/
def opened (config : Config) (threshold : Int) (w : ω) : Session ω where
  driven := ⟨start config threshold, w⟩

/-- What a session leads to by proper calls, as far as a rule lets them be made. -/
inductive Leads (device : Device ω) (may : Session ω → Call → Prop) (r : Session ω) :
    Session ω → Prop where
  | refl : Leads device may r r
  | call {r' : Session ω} {c : Call} (before : Leads device may r r')
      (proper : c.Proper r'.scheduler) (allowed : may r' c) : Leads device may r (r'.perform device c)

/-- Calls are answered one after the other. -/
def performAll (device : Device ω) (r : Session ω) (calls : List Call) : Session ω :=
  calls.foldl (perform device) r

/-- Each of some calls is proper, and the rule lets it be made. -/
def Allowed (device : Device ω) (may : Session ω → Call → Prop) : Session ω → List Call → Prop
  | _, [] => True
  | r, c :: rest => c.Proper r.scheduler ∧ may r c ∧ Allowed device may (r.perform device c) rest

instance Allowed.decidable (device : Device ω) (may : Session ω → Call → Prop)
    [∀ r c, Decidable (may r c)] : (calls : List Call) → (r : Session ω) →
      Decidable (Allowed device may r calls)
  | [], _ => isTrue trivial
  | c :: rest, r =>
    have := decidable device may rest (r.perform device c)
    inferInstanceAs (Decidable (_ ∧ _ ∧ _))

variable {r r' : Session ω} {may : Session ω → Call → Prop} {c : Call} {slack : Prop}

theorem Leads.trans {r'' : Session ω} (first : Leads device may r r') (second : Leads device may r' r'') :
    Leads device may r r'' := by
  induction second with
  | refl => exact first
  | call _ proper allowed ih => exact .call ih proper allowed

theorem Allowed.leads {calls : List Call} (made : Allowed device may r calls) :
    Leads device may r (r.performAll device calls) := by
  induction calls generalizing r with
  | nil => exact .refl
  | cons c rest ih =>
      obtain ⟨proper, allowed, made⟩ := made
      exact (Leads.call .refl proper allowed).trans (ih made)

/-- What all calls rely on and keep. -/
structure Regular (config : Config) (r : Session ω) : Prop where
  orderly : r.scheduler.Orderly [] []
  paced : r.scheduler.Paced
  config : r.scheduler.config = config
  /-- Whatever was generated has come up in an output. -/
  even : ∀ id, (r.scheduler.ledger.transcript id).emitted =
    (r.scheduler.ledger.transcript id).completion.length

/-- The turns that a call lets sequences have. -/
inductive Said (device : Device ω) (r : Session ω) : Call → List Turn → Prop where
  | aborted (name : String) : Said device r (.abort name)
      ((r.scheduler.requests.get? name).toList.map (.last .cancelled))
  | released (reason : FinishReason) : Said device r (.releaseAll reason)
      (r.scheduler.requests.values.map (.last reason))
  | taken : Said device r .takePending []
  | refused (id : SeqId) : Said device r (.add id) []
  | stepped {p : Prepared} {m : Scheduler} {turns : List Turn}
      (prepared : prepare r.scheduler = .ok p m)
      (quiet : m.ledger = r.scheduler.ledger.quiet)
      (among : (turns.map (·.id)).Sublist p.batch.sequences)
      (answers : ∀ samples,
        (device.execute p.batch (m.members p.batch) r.driven.device).1.result = .ok samples →
        samples.length = p.batch.size → turns =
          (p.batch.sequences.zip samples).map fun e => r.scheduler.ledger.answer e.1 e.2) :
      Said device r .step turns

/-- What a call does to all that its callers can tell. -/
inductive Told (device : Device ω) (r r' : Session ω) (c : Call) : Prop where
  /-- A sequence may have been constructed. -/
  | constructed (constructed : r.scheduler.Constructed r'.scheduler) (log : r'.log = r.log)
      (taken : r'.taken = r.taken)
  /-- A fresh sequence was taken in. -/
  | joined {id : SeqId} (called : c = .add id) (fresh : r.scheduler.Fresh id)
      (took : r.scheduler.TakenUp r'.scheduler id)
      (ledger : r'.scheduler.ledger = { r.scheduler.ledger with
        requests := r.scheduler.ledger.requests.insert (r.scheduler.ledger.name id) id })
      (log : r'.log = r.log) (taken : r'.taken = r.taken ++ [(id, r.log.length)])
  /-- Requests had turns. -/
  | heard {turns : List Turn} {outputs : List Output} (said : Said device r c turns)
      (heard : Heard r.scheduler.ledger.quiet turns outputs r'.scheduler.ledger.quiet)
      (log : r'.log = r.log ++ outputs) (taken : r'.taken = r.taken)
      (members : ∀ turn ∈ turns, turn.id ∈ r.scheduler.requests.values)
      (distinct : (turns.map (·.id)).Nodup)

theorem perform_add (device : Device ω) (r : Session ω) (id : SeqId) :
    (r.perform device (.add id)).scheduler = (Scheduler.add id).after r.scheduler := by
  cases run : Scheduler.add id r.scheduler <;> simp only [perform, Action.after, run] <;> rfl

theorem perform_served (device : Device ω) (proper : c.Proper r.scheduler) (notStep : c ≠ .step)
    (notTake : c ≠ .takePending) : r.scheduler.Served (r.perform device c).scheduler := by
  cases c with
  | create d => exact .constructed proper
  | add id => exact perform_add device r id ▸ .taken proper
  | abort name => exact .aborted name
  | releaseAll reason => exact .released reason
  | takePending => exact absurd rfl notTake
  | step => exact absurd rfl notStep

theorem Told.silent (said : Said device r c []) (ledger : r'.scheduler.ledger.quiet = r.scheduler.ledger.quiet)
    (log : r'.log = r.log) (taken : r'.taken = r.taken) : Told device r r' c :=
  .heard said (ledger ▸ .nil _) (log.trans (List.append_nil _).symm) taken
    (fun _ none => absurd none List.not_mem_nil) List.nodup_nil

theorem create_told (orderly : r.scheduler.Orderly [] [] slack) {d : Draft}
    (takes : r.scheduler.Takes d) : Told device r (r.perform device (.create d)) (.create d) := by
  have constructed := (create_orderly orderly takes).2.2
  exact .constructed constructed (congrArg (r.handed ++ ·) constructed.pending) rfl

theorem add_told (orderly : r.scheduler.Orderly [] [] slack) {id : SeqId}
    (fresh : r.scheduler.Fresh id) : Told device r (r.perform device (.add id)) (.add id) := by
  cases verdict : r.scheduler.checkAdmission (r.scheduler.cache.sequence id) with
  | error fault =>
      obtain ⟨_, s, run, journal, same⟩ := add_refuses verdict
      have result : r.perform device (.add id) = r.become s := by simp only [perform, run]
      rw [result, same]
      exact .silent (.refused id) rfl rfl rfl
  | ok accepted =>
      obtain ⟨_, s, run, _, _, took⟩ := add_returns orderly fresh verdict
      obtain ⟨_, ledger⟩ := add_ledger _ s run
      have result : r.perform device (.add id) =
          { r.become s with taken := r.taken ++ [(id, r.log.length)] } := by simp only [perform, run]
      have pending : s.pending = r.scheduler.pending := congrArg Ledger.pending ledger
      rw [result]
      exact .joined rfl fresh took ledger (congrArg (r.handed ++ ·) pending) rfl

theorem abort_told (orderly : r.scheduler.Orderly [] [] slack) (name : String) :
    Told device r (r.perform device (.abort name)) (.abort name) := by
  obtain ⟨_, _, outputs, pending, heard⟩ :=
    ((abort_returns orderly name).also (abort_heard orderly name)).after
  refine .heard (.aborted name) heard ?_ rfl ?_ ?_
  · exact (congrArg (r.handed ++ ·) pending).trans (List.append_assoc ..).symm
  · intro turn among
    obtain ⟨id, found, rfl⟩ := List.mem_map.mp among
    exact OrderedMap.mem_values_of_get? (Option.mem_toList.mp found)
  · cases r.scheduler.requests.get? name <;> simp

theorem releaseAll_told (orderly : r.scheduler.Orderly [] [] slack) (reason : FinishReason) :
    Told device r (r.perform device (.releaseAll reason)) (.releaseAll reason) := by
  obtain ⟨_, _, outputs, pending, heard⟩ :=
    ((releaseAll_returns orderly reason).also (releaseAll_heard orderly reason)).after
  refine .heard (.released reason) heard ?_ rfl ?_ ?_
  · exact (congrArg (r.handed ++ ·) pending).trans (List.append_assoc ..).symm
  · intro turn among
    obtain ⟨id, member, rfl⟩ := List.mem_map.mp among
    exact member
  · rw [List.map_map]
    exact (List.map_id r.scheduler.requests.values).symm ▸ orderly.registered.values_nodup

theorem takePending_told : Told device r (r.perform device .takePending) .takePending :=
  .silent .taken rfl (List.append_nil _) rfl

theorem step_told (regular : r.Regular config) (valid : device.Valid) :
    Told device r (r.perform device .step) .step := by
  obtain ⟨orderly, paced, -, -⟩ := regular
  obtain ⟨result, d, run, _,
      ⟨p, m, turns, outputs, prepared, quiet, handed, heard, ⟨among, -⟩, answers⟩⟩ :=
    (Driven.step_round orderly paced valid).also (Driven.step_heard orderly)
  have same : r.perform device .step =
      { r with driven := d, handed := r.handed ++ result.outputs } := by simp only [perform, run]
  obtain ⟨planned, _⟩ := (prepare_returns orderly).of_run prepared
  have requests : m.requests = r.scheduler.requests := congrArg Ledger.requests quiet
  have pending : d.scheduler.pending = [] := heard.pending
  rw [same]
  refine .heard (.stepped prepared quiet among answers) heard.quiet ?_ rfl ?_
    (planned.nodup.sublist among)
  · show r.handed ++ result.outputs ++ d.scheduler.pending = r.log ++ outputs
    rw [pending, handed, List.append_nil, ← List.append_assoc]
    rfl
  · intro turn taken
    have member := among.subset (List.mem_map_of_mem taken)
    exact requests ▸ planned.orderly.mem_values .running (planned.running _ member)

theorem handed_perform (device : Device ω) (r : Session ω) (c : Call) :
    r.handed <+: (r.perform device c).handed := by
  cases c with
  | create _ => exact List.prefix_rfl
  | add id => cases run : Scheduler.add id r.scheduler <;> simp only [perform, run] <;> exact List.prefix_rfl
  | abort _ => exact List.prefix_rfl
  | releaseAll _ => exact List.prefix_rfl
  | takePending => exact List.prefix_append ..
  | step =>
      cases run : Driven.step (some device) r.driven <;> simp only [perform, run]
      · exact List.prefix_append ..
      · exact List.prefix_rfl

theorem handed_step (orderly : r.scheduler.Orderly [] []) (valid : device.Valid) :
    (r.perform device .step).handed = (r.perform device .step).log := by
  obtain ⟨result, d, run, _, _, _, _, _, _, _, _, heard, _⟩ :=
    (Driven.step_returns orderly valid).also (Driven.step_heard orderly)
  have pending : d.scheduler.pending = [] := heard.pending
  simp only [perform, run, log, scheduler, pending, List.append_nil]

/-- Every proper call is answered in one of the three ways. -/
theorem perform_told (regular : r.Regular config) (valid : device.Valid)
    (proper : c.Proper r.scheduler) : Told device r (r.perform device c) c := by
  cases c with
  | create d => exact create_told regular.orderly proper
  | add id => exact add_told regular.orderly proper
  | abort name => exact abort_told regular.orderly name
  | releaseAll reason => exact releaseAll_told regular.orderly reason
  | takePending => exact takePending_told
  | step => exact step_told regular valid

theorem Told.even (told : Told device r r' c)
    (even : ∀ id, (r.scheduler.ledger.transcript id).emitted =
      (r.scheduler.ledger.transcript id).completion.length) (id : SeqId) :
    (r'.scheduler.ledger.transcript id).emitted =
      (r'.scheduler.ledger.transcript id).completion.length := by
  cases told with
  | constructed constructed _ _ =>
      by_cases knows : r.scheduler.cache.Knows id
      · have same : r'.scheduler.ledger.transcript id = r.scheduler.ledger.transcript id :=
          congrArg Sequence.transcript (constructed.others id knows)
        exact same ▸ even id
      · obtain ⟨completion, emitted⟩ := constructed.blank id knows
        exact emitted.trans (congrArg List.length completion).symm
  | joined _ _ _ ledger _ _ =>
      rw [ledger]
      exact even id
  | heard _ heard _ _ _ _ => exact heard.even even id

/-- The sequences of a session go on or stay as they are, whatever is called. -/
theorem perform_onward (regular : r.Regular config) (valid : device.Valid)
    (proper : c.Proper r.scheduler) : (r.perform device c).Regular config ∧
      r.scheduler.Onward (r.perform device c).scheduler := by
  have even := (perform_told regular valid proper).even regular.even
  obtain ⟨orderly, paced, config, -⟩ := regular
  by_cases step : c = .step
  · subst step
    obtain ⟨result, d, run, orderly', paced', round⟩ := Driven.step_round orderly paced valid
    obtain ⟨_, same, _⟩ := (Driven.step_returns orderly valid).of_run run
    have result : r.perform device .step =
        { r with driven := d, handed := r.handed ++ result.outputs } := by simp only [perform, run]
    rw [result] at even ⊢
    exact ⟨⟨orderly', paced', same.trans config, even⟩, round.onward orderly'⟩
  by_cases take : c = .takePending
  · subst take
    have kept : r.scheduler.Kept (r.perform device .takePending).scheduler :=
      .of_unmoved ⟨rfl, rfl, fun _ => rfl⟩ fun _ => rfl
    have orderly' : (r.perform device .takePending).scheduler.Orderly [] [] :=
      orderly.unmoved rfl ⟨rfl, rfl, fun _ => rfl⟩
    exact ⟨⟨orderly', kept.paced orderly orderly' paced, config, even⟩, kept.onward orderly⟩
  · have served := perform_served device proper step take
    obtain ⟨orderly', carried⟩ := served.orderly orderly
    exact ⟨⟨orderly', served.paced orderly paced, carried.config.trans config, even⟩,
      served.onward orderly⟩

theorem opened_regular (config : Config) (threshold : Int) (w : ω) :
    (opened config threshold w).Regular config :=
  ⟨start_orderly config threshold, start_paced config threshold, rfl, fun _ => rfl⟩

theorem Leads.regular (leads : Leads device may r r') (regular : r.Regular config)
    (valid : device.Valid) : r'.Regular config ∧ r.scheduler.Onward r'.scheduler := by
  induction leads with
  | refl => exact ⟨regular, .refl _⟩
  | call before proper _ ih =>
      obtain ⟨regular', onward⟩ := perform_onward ih.1 valid proper
      exact ⟨regular', ih.2.trans onward⟩

/-- A sequence is a request or has ended. -/
def Admitted (r : Session ω) (id : SeqId) : Prop :=
  id ∈ r.scheduler.requests.values ∨ (r.scheduler.sequence id).isFinished = true

theorem Admitted.knows (admitted : r.Admitted id) (regular : r.Regular config) :
    r.scheduler.cache.Knows id :=
  admitted.elim regular.orderly.knows knows_of_terminal

theorem Admitted.onward (admitted : r.Admitted id)
    (onward : r.scheduler.Onward r'.scheduler) : r'.Admitted id := by
  rcases admitted with member | terminal
  · exact onward.registered id member
  · refine Or.inr ?_
    have same : r'.scheduler.sequence id = r.scheduler.sequence id := onward.ended id terminal
    rw [same]
    exact terminal

/-- In a call a sequence has no turn and nothing is heard of it, or it has one that is heard. -/
theorem Told.turn (told : Told device r r' c) (regular : r.Regular config) (admitted : r.Admitted id) :
    (r'.scheduler.ledger.transcript id = r.scheduler.ledger.transcript id ∧
      (id ∈ r'.scheduler.requests.values ↔ id ∈ r.scheduler.requests.values) ∧
      ∃ more, r'.log = r.log ++ more ∧ (id ∈ r.scheduler.requests.values →
        more.filter (·.requestId = r.scheduler.ledger.name id) = [])) ∨
    ∃ turns turn outputs, Said device r c turns ∧ turn ∈ turns ∧ turn.id = id ∧
      id ∈ r.scheduler.requests.values ∧ r'.log = r.log ++ outputs ∧
      outputs.filter (·.requestId = r.scheduler.ledger.name id) = [r.scheduler.ledger.output turn] ∧
      r'.scheduler.ledger.transcript id = (r.scheduler.ledger.drafted turn).delivered ∧
      (id ∈ r'.scheduler.requests.values ↔ turn.ending = none) := by
  cases told with
  | constructed constructed log _ =>
      refine Or.inl ⟨?_, ?_, [], log.trans (List.append_nil _).symm, fun _ => rfl⟩
      · exact congrArg Sequence.transcript (constructed.others id (admitted.knows regular))
      · rw [constructed.unmoved.requests]
  | @joined other called fresh took ledger log _ =>
      refine Or.inl ⟨by rw [ledger], ?_, [], log.trans (List.append_nil _).symm, fun _ => rfl⟩
      rw [took.requests, List.mem_append, List.mem_singleton, or_iff_left_iff_imp]
      rintro rfl
      refine admitted.resolve_right fun terminal => ?_
      have waits : (r.scheduler.sequence id).status = .waiting := fresh.status
      simp [Sequence.isFinished, waits, Status.isTerminal] at terminal
  | @heard turns outputs said heard log _ members distinct =>
      have named := regular.orderly.named
      by_cases spoke : id ∈ turns.map (·.id)
      · obtain ⟨turn, among, rfl⟩ := List.mem_map.mp spoke
        obtain ⟨transcript, registered, alone⟩ := heard.own named members distinct among
        exact Or.inr ⟨turns, turn, outputs, said, among, rfl, members turn among, log, alone,
          transcript, registered⟩
      · obtain ⟨same, registered⟩ := heard.others named members distinct spoke
        exact Or.inl ⟨same, registered, outputs, log, fun member =>
          named.silent heard.names members member spoke⟩

/-- What comes up in a call is said by requests. -/
theorem Told.speakers (told : Told device r r' c) :
    ∃ more, r'.log = r.log ++ more ∧
      ∀ o ∈ more, ∃ id ∈ r.scheduler.requests.values, r.scheduler.ledger.name id = o.requestId := by
  cases told with
  | constructed _ log _ => exact ⟨[], log.trans (List.append_nil _).symm, by simp⟩
  | joined _ _ _ _ log _ => exact ⟨[], log.trans (List.append_nil _).symm, by simp⟩
  | @heard turns outputs _ heard log _ members _ =>
      refine ⟨outputs, log, fun o among => ?_⟩
      have spoken : o.requestId ∈ turns.map fun turn => r.scheduler.ledger.name turn.id :=
        heard.names ▸ List.mem_map_of_mem among
      obtain ⟨turn, taken, name⟩ := List.mem_map.mp spoken
      exact ⟨turn.id, members turn taken, name⟩

theorem Told.origin (told : Told device r r' c) (knows : r.scheduler.cache.Knows id) :
    r'.scheduler.cache.Knows id ∧
      (r'.scheduler.sequence id).origin = (r.scheduler.sequence id).origin := by
  cases told with
  | constructed constructed _ _ =>
      exact ⟨constructed.knows id knows, congrArg Sequence.origin (constructed.others id knows)⟩
  | joined _ _ took _ _ _ =>
      exact ⟨(took.knows id).mpr knows, congrArg Sequence.origin (took.sequences id)⟩
  | heard _ heard _ _ _ _ => exact ⟨knows_of_count heard.count knows, heard.origin id⟩

theorem Leads.origin (leads : Leads device may r r') (regular : r.Regular config)
    (valid : device.Valid) (knows : r.scheduler.cache.Knows id) : r'.scheduler.cache.Knows id ∧
      (r'.scheduler.sequence id).origin = (r.scheduler.sequence id).origin := by
  induction leads with
  | refl => exact ⟨knows, rfl⟩
  | call before proper _ ih =>
      have told := perform_told (before.regular regular valid).1 valid proper
      obtain ⟨knows', same⟩ := told.origin ih.1
      exact ⟨knows', same.trans ih.2⟩

/-- What was heard of a request grows by what it says in a call, and nothing more is heard of a
    sequence that has ended. -/
theorem Told.voiced (told : Told device r r' c) (regular : r.Regular config)
    (admitted : r.Admitted id) {own more : List Output} (log : r'.log = r.log ++ more)
    (voiced : r.scheduler.ledger.Voiced id own) :
    r'.scheduler.ledger.Voiced id (own ++ if id ∈ r.scheduler.requests.values then
      more.filter (·.requestId = r.scheduler.ledger.name id) else []) := by
  rcases told.turn regular admitted with ⟨same, registered, more', log', silent⟩ |
    ⟨turns, turn, more', _, _, rfl, member, log', alone, transcript, registered⟩
  all_goals obtain rfl := List.append_cancel_left (log.symm.trans log')
  · have nothing : (if id ∈ r.scheduler.requests.values then
        more.filter (·.requestId = r.scheduler.ledger.name id) else []) = [] := by
      split
      · exact silent ‹_›
      · rfl
    rw [nothing, List.append_nil]
    exact voiced.congr same registered
  · have going : Going own (r.scheduler.ledger.transcript turn.id) := by
      simpa only [Ledger.Voiced, if_pos (show turn.id ∈ r.scheduler.ledger.requests.values from member)]
        using voiced
    have requests : turn.id ∈ r'.scheduler.ledger.requests.values ↔ turn.ending = none := registered
    rw [if_pos member, alone, Ledger.Voiced, transcript]
    simpa only [requests] using going.after

/-- Only a sequence that is handed in joins those that were taken in, and only such a one becomes a
    request. Nothing was heard of it yet. -/
theorem Told.taken (told : Told device r r' c) (regular : r.Regular config) :
    (r'.taken = r.taken ∧ ∀ id ∈ r'.scheduler.requests.values, id ∈ r.scheduler.requests.values) ∨
    ∃ id, c = .add id ∧ r'.taken = r.taken ++ [(id, r.log.length)] ∧ r'.log = r.log ∧
      r'.scheduler.ledger.transcript = r.scheduler.ledger.transcript ∧
      r'.scheduler.requests.values = r.scheduler.requests.values ++ [id] ∧
      id ∉ r.scheduler.requests.values ∧ Going [] (r'.scheduler.ledger.transcript id) := by
  cases told with
  | constructed constructed _ taken =>
      exact Or.inl ⟨taken, fun id member => constructed.unmoved.requests ▸ member⟩
  | @joined id called fresh took ledger log taken =>
      have transcript : r'.scheduler.ledger.transcript = r.scheduler.ledger.transcript := by rw [ledger]
      have absent : id ∉ r.scheduler.requests.values := by
        intro member
        exact fresh.outside ((regular.orderly.stands_iff member .waiting).mpr fresh.status)
      have blank : (r.scheduler.ledger.transcript id).completion = [] := took.completion
      refine Or.inr ⟨id, called, taken, log, transcript, took.requests, absent, ?_⟩
      rw [transcript]
      exact ⟨blank.symm, regular.even id, by simp⟩
  | @heard turns outputs _ heard _ taken members distinct =>
      refine Or.inl ⟨taken, fun id member => ?_⟩
      have named := regular.orderly.named
      by_cases spoke : id ∈ turns.map (·.id)
      · obtain ⟨turn, among, rfl⟩ := List.mem_map.mp spoke
        exact members turn among
      · exact ((heard.others named members distinct spoke).2).mp member

/-- A sequence was taken in. -/
def TookIn (r : Session ω) (id : SeqId) : Prop :=
  id ∈ r.taken.map Prod.fst

instance (r : Session ω) (id : SeqId) : Decidable (r.TookIn id) :=
  inferInstanceAs (Decidable (id ∈ r.taken.map Prod.fst))

theorem tookIn_append {new : SeqId} {mark : Nat} (taken : r'.taken = r.taken ++ [(new, mark)])
    (id : SeqId) : r'.TookIn id ↔ r.TookIn id ∨ id = new := by
  simp [TookIn, taken]

/-- The requests are those that were taken in and have not ended. -/
structure Enrolled (r : Session ω) : Prop where
  admitted : ∀ id, r.TookIn id → r.Admitted id
  requests : ∀ id ∈ r.scheduler.requests.values, r.TookIn id

theorem Enrolled.told (enrolled : r.Enrolled) (told : Told device r r' c)
    (regular : r.Regular config) (onward : r.scheduler.Onward r'.scheduler) : r'.Enrolled := by
  have admitted : ∀ id, r.TookIn id → r'.Admitted id := fun id tookIn =>
    (enrolled.admitted id tookIn).onward onward
  rcases told.taken regular with ⟨taken, fewer⟩ | ⟨new, _, taken, _, _, requests, _, _⟩
  · have tookIn : ∀ id, r'.TookIn id ↔ r.TookIn id := fun id => by rw [TookIn, TookIn, taken]
    exact ⟨fun id among => admitted id ((tookIn id).mp among),
      fun id member => (tookIn id).mpr (enrolled.requests id (fewer id member))⟩
  · have tookIn := tookIn_append taken
    constructor
    case admitted =>
      intro id among
      rcases (tookIn id).mp among with old | rfl
      · exact admitted id old
      · exact Or.inl (by simp [requests])
    case requests =>
      intro id member
      rw [requests, List.mem_append, List.mem_singleton] at member
      exact (tookIn id).mpr (member.imp_left (enrolled.requests id))

theorem opened_enrolled (config : Config) (threshold : Int) (w : ω) :
    (opened config threshold w).Enrolled where
  admitted _ none := absurd none List.not_mem_nil
  requests _ none := absurd none List.not_mem_nil

theorem Leads.enrolled (leads : Leads device may r r') (regular : r.Regular config)
    (valid : device.Valid) (enrolled : r.Enrolled) : r'.Enrolled := by
  induction leads with
  | refl => exact enrolled
  | call before proper _ ih =>
      have regular' := (before.regular regular valid).1
      exact ih.told (perform_told regular' valid proper) regular'
        (perform_onward regular' valid proper).2

end Session

end PagedServing.Scheduler
