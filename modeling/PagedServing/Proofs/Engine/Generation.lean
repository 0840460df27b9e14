import Mathlib.Data.List.Forall2
import PagedServing.Proofs.Engine.Following
import PagedServing.Proofs.Engine.Recovery

/-! # Generating beside other requests

Several prompts are completed on behalf of one caller, in an engine that serves other requests as
well. Each completion is the one that the reference loop comes to from its prompt, whatever else is
in flight and however it is scheduled.
-/

namespace PagedServing

section Each

variable {α β γ : Type} {g : α → Option γ} {h : β → γ} {as : List α} {bs : List β}

theorem mapM_of_each (each : List.Forall₂ (fun a b => g a = some (h b)) as bs) :
    as.mapM g = some (bs.map h) := by
  induction each with
  | nil => rfl
  | cons head _ ih => simp [List.mapM_cons, head, ih]

theorem eq_of_mapM (each : List.Forall₂ (fun a b => ∀ c, g a = some c → c = h b) as bs) {cs : List γ}
    (all : as.mapM g = some cs) : cs = bs.map h := by
  induction each generalizing cs with
  | nil => simpa using all.symm
  | cons head _ ih =>
      simp only [List.mapM_cons, Option.bind_eq_bind, Option.bind_eq_some_iff, Option.pure_def,
        Option.some.injEq] at all
      obtain ⟨c, found, rest, others, rfl⟩ := all
      rw [List.map_cons, ← head c found, ← ih others]

end Each

variable {ω : Type} {config : Config} {f : List Int → Int} {id : SeqId} {name : String}
  {p : List Int × Sampling}

namespace Engine

variable {e e' : Engine ω}

/-- The number of the next sequence. -/
def nextId (e : Engine ω) : SeqId :=
  e.scheduler.cache.sequences.nextId

theorem eq_of_toString {m n : Nat} (same : toString m = toString n) : m = n := by
  rw [Nat.toString_eq_ofList_toDigits, Nat.toString_eq_ofList_toDigits] at same
  have digits := congrArg (fun cs => Nat.ofDigitChars 10 cs 0) (String.ofList_injective same)
  simpa only [Nat.ofDigitChars_ten_toDigits] using digits

/-- A request is posted, and what is cancelled under its name is cancelled before it is taken over. -/
structure Awaited (e : Engine ω) (name : String) (p : List Int × Sampling) (id : SeqId) : Prop where
  posted : id ∈ e.posted
  inquiry : (e.scheduler.sequence id).inquiry = (name, p)
  spared : ∀ rest, .cancel name :: rest <:+ e.commands → .add id ∈ rest

/-- A request without a name was posted under its number. -/
structure Posts (e e' : Engine ω) (p : List Int × Sampling) : Prop where
  inquiry : (e'.scheduler.sequence e.nextId).inquiry = (toString e.nextId, p)
  others : ∀ id, e.scheduler.cache.Knows id → e'.scheduler.sequence id = e.scheduler.sequence id
  count : e'.nextId = e.nextId + 1
  commands : e'.commands = e.commands ++ [.add e.nextId]
  live : e'.live = e.live ++ [toString e.nextId]

theorem newRequest_posts (accepting : e.accepting = true) (filled : p.1 ≠ [])
    (short : p.1.length < e.scheduler.config.maxLength) (free : toString e.nextId ∉ e.live) :
    (newRequest p.1 p.2).Returns e fun name e' => name = toString e.nextId ∧ Posts e e' p := by
  have size : 0 < (e.draft p.1 p.2 none).blockSize := Int.ofNat_lt.mpr e.scheduler.config.blockSize_pos
  obtain ⟨id, m, run, q, created, named, text, sampling, config⟩ := create_returns (s := e.scheduler)
    (d := e.draft p.1 p.2 none) filled size
  obtain rfl : id = e.nextId := created.number
  have self : m.sequence e.nextId = q := created.self
  have inquiry : (m.sequence e.nextId).inquiry = (toString e.nextId, p) := by
    rw [self, Sequence.inquiry, named, text, sampling]
    rfl
  have named : (m.sequence e.nextId).requestId = toString e.nextId := self ▸ named
  have acceptable : ({ e with scheduler := m } : Engine ω).Acceptable e.nextId := by
    refine ⟨accepting, ?_, ?_⟩
    · rwa [named]
    · rw [self, text, config]
      exact short
  obtain ⟨answer, e', ran, answered, same⟩ := accept_returns acceptable
  have answered : answer = toString e.nextId := answered.trans named
  refine ⟨answer, e', (newRequest_of_ok run).trans ran, answered, ?_⟩
  subst same
  exact ⟨inquiry, created.others, created.count, rfl, answered ▸ rfl⟩

theorem cancelled_of_snoc {commands rest : List Command} {new : SeqId}
    (cancelled : .cancel name :: rest <:+ commands ++ [.add new]) :
    ∃ front, rest = front ++ [.add new] ∧ .cancel name :: front <:+ commands := by
  obtain none | ⟨front, same, before⟩ := List.suffix_concat_iff.mp cancelled
  · cases none
  · cases front with
    | nil => cases same
    | cons c front =>
        obtain ⟨rfl, rfl⟩ := List.cons.inj same
        exact ⟨front, rfl, before⟩

theorem Posts.awaited_new (posts : Posts e e' p) : Awaited e' (toString e.nextId) p e.nextId := by
  refine ⟨?_, posts.inquiry, fun rest cancelled => ?_⟩
  · rw [mem_posted, posts.commands]
    exact List.mem_append_right _ List.mem_cons_self
  · obtain ⟨front, rfl, -⟩ := cancelled_of_snoc (posts.commands ▸ cancelled)
    exact List.mem_append_right _ List.mem_cons_self

theorem Posts.awaited {q : List Int × Sampling} (posts : Posts e e' q) (awaited : Awaited e name p id)
    (knows : e.scheduler.cache.Knows id) : Awaited e' name p id := by
  obtain ⟨posted, inquiry, spared⟩ := awaited
  refine ⟨?_, ?_, fun rest cancelled => ?_⟩
  · rw [mem_posted] at posted ⊢
    rw [posts.commands]
    exact List.mem_append_left _ posted
  · rw [posts.others id knows]
    exact inquiry
  · obtain ⟨front, rfl, before⟩ := cancelled_of_snoc (posts.commands ▸ cancelled)
    exact List.mem_append_left _ (spared front before)

end Engine

namespace Service

open Engine (Awaited Followed completionOf? expected gather newRequests)

variable {s : Service ω} {host : Host ω} {ps : List (List Int × Sampling)} {names : List String}

theorem Upright.awaited_knows (upright : s.Upright config) (awaited : Awaited s.engine name p id) :
    s.engine.scheduler.cache.Knows id :=
  (upright.standing.fresh id awaited.posted).knows

theorem Upright.followed (upright : s.Upright config) (awaited : Awaited s.engine name p id) :
    Followed f s.engine [] name p id := by
  obtain ⟨posted, inquiry, spared⟩ := awaited
  refine ⟨inquiry, fun other among own => ?_, spared, Or.inl ⟨posted, by simp⟩⟩
  have named : (s.engine.scheduler.sequence id).requestId = name := congrArg Prod.fst inquiry
  exact upright.standing.apart other among id (List.mem_append_left _ posted) (own.trans named.symm)

theorem Upright.asks (upright : s.Upright config) (idle : s.phase = .idle)
    (accepting : s.engine.accepting = true)
    (admissible : ∀ p ∈ ps, p.1 ≠ [] ∧ p.1.length < config.maxLength ∧ ∀ t ∈ p.1, tokenFits t = true)
    (free : ∀ k < ps.length, toString (s.engine.nextId + k) ∉ s.engine.live) :
    ∃ (s' : Service ω) (names : List String), s'.Upright config ∧ s'.phase = .idle ∧
      newRequests ps s.engine = .ok names s'.engine ∧
      List.Forall₂ (fun name p => ∃ id, Awaited s'.engine name p id) names ps ∧
      ∀ {name p id}, Awaited s.engine name p id → Awaited s'.engine name p id := by
  induction ps generalizing s with
  | nil => exact ⟨s, [], upright, idle, rfl, .nil, fun awaited => awaited⟩
  | cons p ps ih =>
      obtain ⟨filled, short, fits⟩ := admissible p List.mem_cons_self
      have config : s.engine.scheduler.config = config := upright.standing.regular.config
      obtain ⟨_, e, ran, rfl, posts⟩ := Engine.newRequest_posts accepting filled (config ▸ short)
        (free 0 (Nat.succ_pos _))
      obtain ⟨s₁, upright₁, phase₁, engine₁, accepting₁, -⟩ := upright.requested (fun _ => fits) p.2 none
      obtain rfl : s₁.engine = e := engine₁.trans (by rw [Action.after, ran])
      have free₁ : ∀ k < ps.length, toString (s₁.engine.nextId + k) ∉ s₁.engine.live := by
        intro k less flies
        rw [posts.live, posts.count, List.mem_append, List.mem_singleton] at flies
        rcases flies with old | new
        · refine free (k + 1) (Nat.succ_lt_succ less) ?_
          rwa [Nat.add_right_comm, Nat.add_assoc] at old
        · have same := Engine.eq_of_toString new
          omega
      obtain ⟨s', names, upright', idle', ran', each, kept⟩ := ih upright₁ (phase₁.trans idle)
        (accepting₁.trans accepting) (fun q among => admissible q (List.mem_cons_of_mem _ among)) free₁
      refine ⟨s', _ :: names, upright', idle', ?_, .cons ⟨_, kept posts.awaited_new⟩ each, ?_⟩
      · simp only [newRequests, bind, EStateM.bind, ran, ran']
        rfl
      · exact fun awaited => kept (posts.awaited awaited (upright.awaited_knows awaited))

theorem Wound.completion {outputs : List Output} (wound : s.Wound)
    (pending : s.engine.scheduler.pending = []) (followed : Followed f s.engine outputs name p id) :
    completionOf? outputs name = some (expected f s.engine.scheduler.config p) := by
  rcases followed.course with ⟨posted, -⟩ | underway
  · rw [Engine.mem_posted, wound.commands] at posted
    cases posted
  · exact underway.completion followed.inquiry pending (by simp [wound.requests])

theorem Upright.gathers {ids : List SeqId} {n : Nat} {outputs : List Output}
    (upright : s.Upright config) (calm : host.Calm) (valid : host.device.Valid)
    (computes : host.device.Computes f) (idle : s.phase = .idle) (nearing : s.Nearing ids n)
    (followed : List.Forall₂ (fun name p => ∃ id, Followed f s.engine outputs name p id) names ps) :
    (gather host names n outputs).Returns s.engine fun completions _ =>
      completions = ps.map (expected f config) := by
  have config' : s.engine.scheduler.config = config := upright.standing.regular.config
  have pending := upright.settled (by simp [Draining, idle])
  induction n generalizing s outputs with
  | zero =>
      have wound := nearing.wound upright
      have whole : names.mapM (completionOf? outputs) = some (ps.map (expected f config)) := by
        refine mapM_of_each (followed.imp fun name p some => ?_)
        obtain ⟨id, followed⟩ := some
        exact config' ▸ wound.completion pending followed
      refine ⟨_, s.engine, ?_, rfl⟩
      rw [gather, whole]
      rfl
  | succ n ih =>
      cases all : names.mapM (completionOf? outputs) with
      | some completions =>
          refine ⟨completions, s.engine, ?_, eq_of_mapM (followed.imp ?_) all⟩
          · rw [gather, all]
            rfl
          · rintro name p ⟨id, followed⟩ c found
            exact config' ▸ followed.completion pending found
      | none =>
          obtain ⟨m, result, upright', idle', nearing', step, further⟩ :=
            upright.follows calm valid computes idle nearing
          have followed' := followed.imp fun _ _ some => some.imp fun _ => further
          obtain ⟨completions, e, ran, same⟩ := ih upright' idle' nearing' followed'
            upright'.standing.regular.config (upright'.settled (by simp [Draining, idle']))
          refine ⟨completions, e, ?_, same⟩
          rw [gather, all]
          simp only [bind, EStateM.bind, step]
          exact ran

end Service

namespace Engine

theorem SamplingPlan.settings_length {plan : SamplingPlan} {prompts : Nat} {settings : List Sampling}
    (matching : plan.settings prompts = .ok settings) : settings.length = prompts := by
  cases plan with
  | shared s =>
      cases matching
      exact List.length_replicate
  | each ss =>
      simp only [SamplingPlan.settings] at matching
      split at matching
      · cases matching
        assumption
      · cases matching

variable {host : Host ω} {allowed : Host ω → Prop}

/-- On a device that answers every history by a function, and with callbacks that do not fail, each
    prompt is completed as the reference loop completes it, in the order of the prompts. Neither the
    other prompts nor what is in flight nor the limits and blocks of the engine can be told from it. -/
theorem generates_reference (valid : ∀ host, allowed host → host.device.Valid)
    (attained : Attained config allowed e) (calm : host.Calm) (computes : host.device.Computes f)
    (natural : ∀ history, 0 ≤ f history ∧ f history < 2 ^ 31) {prompts : List (List Int)}
    {plan : SamplingPlan} {settings : List Sampling}
    (matching : plan.settings prompts.length = .ok settings)
    (admissible : ∀ prompt ∈ prompts, prompt ≠ [] ∧ prompt.length < config.maxLength ∧
      ∀ t ∈ prompt, tokenFits t = true)
    (free : ∀ k < prompts.length, toString (e.nextId + k) ∉ e.live) :
    (generate host prompts plan).Returns e fun completions _ =>
      completions.length = prompts.length ∧
        completions = (prompts.zip settings).map (expected f config) := by
  have count : (prompts.zip settings).length = prompts.length := by
    rw [List.length_zip, SamplingPlan.settings_length matching, Nat.min_self]
  obtain ⟨s, upright, idle, rfl, accepting⟩ := attained.service valid
  obtain ⟨s', names, upright', idle', asked, each, -⟩ := upright.asks idle accepting
    (fun p among => admissible p.1 (List.of_mem_zip among).1) fun k less => free k (count ▸ less)
  have followed := each.imp fun _ _ some => some.imp fun _ => upright'.followed (f := f)
  obtain ⟨completions, e, ran, same⟩ :=
    upright'.gathers calm (computes.valid natural) computes idle' upright'.nearing followed
  refine ⟨completions, e, ?_, by rw [same, List.length_map, count], same⟩
  have absent : s.engine.isRunning = false := by
    rw [isRunning, upright.absent]
    rfl
  simp only [generate, bind, EStateM.bind, Action.run_get, absent, Action.require, matching,
    Action.ofExcept, Bool.not_false, if_true, pure, EStateM.pure, asked]
  exact ran

/-- A host that answers the length of a history, and calls nobody back. -/
def counting : Host Unit where
  device := Scheduler.Session.computing fun history => history.length % 10

/-- Two prompts are completed beside a request that has got a token already, and after a cancellation
    that was posted too early to matter. -/
theorem generates_reference_beside :
    let e := (cancel "1").after ((step counting).after
      ((newRequest [5, 6] .standard (some "a")).after (launch (Scheduler.smallConfig .swap true) ())))
    e.live = ["a"] ∧
      (generate counting [[5], [1, 2, 3]] (.each [.standard, single])).Returns e fun completions _ =>
        completions = [([5], .standard), ([1, 2, 3], single)].map
            (expected (fun history => history.length % 10) (Scheduler.smallConfig .swap true)) ∧
          completions = [⟨[1, 2, 3, 4, 5, 6, 7], .length⟩, ⟨[3], .length⟩] := by
  intro e
  have natural : ∀ history : List Int, 0 ≤ (history.length % 10 : Int) ∧
      history.length % 10 < (2 : Int) ^ 31 := fun history => by omega
  have computes : counting.device.Computes fun history => history.length % 10 := fun _ _ _ => rfl
  have calm : counting.Calm := ⟨by rintro _ ⟨⟩, by rintro _ ⟨⟩⟩
  have begun : Attained (Scheduler.smallConfig .swap true) (· = counting)
      ((newRequest [5, 6] .standard (some "a")).after (launch (Scheduler.smallConfig .swap true) ())) :=
    .requested (.launched ()) (by decide)
  have attained : Attained (Scheduler.smallConfig .swap true) (· = counting) e :=
    .cancelled (.stepped begun rfl) "1"
  let prompts : List (List Int) := [[5], [1, 2, 3]]
  have matching : (SamplingPlan.each [.standard, single]).settings prompts.length =
      .ok [.standard, single] := rfl
  obtain ⟨completions, e', ran, -, same⟩ :=
    generates_reference (fun _ own => own ▸ computes.valid natural) attained calm computes natural
      matching (by decide) (by decide +kernel)
  have found : (generate counting [[5], [1, 2, 3]] (.each [.standard, single])).Returns e
      fun completions _ => completions = [⟨[1, 2, 3, 4, 5, 6, 7], .length⟩, ⟨[3], .length⟩] := by
    decide +kernel
  obtain ⟨_, _, ran', list⟩ := found
  cases ran.symm.trans ran'
  exact ⟨by decide +kernel, completions, e', ran, same, list⟩

/-- A request in flight whose prompt has a token beyond a word of 32 bits takes everybody down with it:
    its fault ends the iteration, and the other prompt is not completed. -/
theorem uncompleted_beyond_word :
    let config := Scheduler.smallConfig .recompute true
    let host : Host Unit := { device := Scheduler.Session.computing fun _ => 7 }
    let e := (newRequest [2147483648] .standard (some "a")).after (launch config ())
    host.Calm ∧ host.device.Computes (fun _ => 7) ∧ e.accepting = true ∧ toString e.nextId ∉ e.live ∧
      expected (fun _ => 7) config ([1], single) = ⟨[7], .length⟩ ∧
      (generate host [[1]] (.shared single)).Fails e fun fault _ => fault = .wordOverflow := by
  intro config host e
  have stops : stopping config.eos config.maxLength single [1] ([] ++ [7]) = some .length := by decide
  refine ⟨⟨by rintro _ ⟨⟩, by rintro _ ⟨⟩⟩, fun _ _ _ => rfl, by decide +kernel, by decide +kernel, ?_,
    by decide +kernel⟩
  rw [expected, reference_stops stops]
  rfl

end Engine

end PagedServing
