import PagedServing.Proofs.Scheduler.Preemption

/-! # Letting sequences run

Preempted and waiting sequences run when the blocks for all their tokens are free beside
those that the running sequences lay claim to. A sequence that was swapped out gets its
blocks back with a copy of each, any other is covered anew.
-/

namespace PagedServing.Scheduler

open Cache (Moves)

variable {s s' : Scheduler} {id : SeqId} {c c' : Cache} {slack : Prop}

/-- How one sequence gets the blocks that it runs with, and which copies that takes. -/
inductive Resumed (c : Cache) (id : SeqId) : Cache → Moves → Prop where
  | covered {c' : Cache} (changes : c.Changes c') : Resumed c id c' {}
  | back {c₁ c' : Cache} {blocks : List Int} (back : c.SwappedIn c₁ id blocks)
      (changes : c₁.Changes c') : Resumed c id c' (.ofList ((c.sequence id).table.zip blocks))

/-- A run of admissions. -/
abbrev Admitted : Cache → List SeqId → Cache → Moves → Prop :=
  Cache.Transferred Resumed

/-- How a sequence has got the blocks that it runs with: its computed blocks were found under
    their hashes, or all are new and its host blocks are to be copied to them. -/
inductive Furnished (c c' : Cache) (id : SeqId) : Moves → Prop where
  | anew (marked : c'.Marked id) : Furnished c c' id {}
  | back {blocks : List Int} (swapped : c.isSwapped id = true)
      (table : (c'.sequence id).table = blocks)
      (length : blocks.length = (c.sequence id).table.length)
      (plain : ∀ b ∈ blocks, (c'.device.entry b).hash = noHash) :
      Furnished c c' id (.ofList ((c.sequence id).table.zip blocks))

theorem Furnished.noted {c'' : Cache} {q : Sequence} {moves : Moves}
    (furnished : Furnished c c' id moves) (noted : c'.Noted c'' id q)
    (computed : (c''.sequence id).computed = (c'.sequence id).computed) :
    Furnished c c'' id moves := by
  cases furnished with
  | anew marked => exact .anew (marked.noted noted computed)
  | back swapped table length plain =>
      exact .back swapped ((noted.tables id).trans table) length fun b new => noted.device ▸ plain b new

theorem canStart_iff {plan : Plan} : s.canStart plan id = true ↔
    s.running.length < s.config.maxSequences ∧
    plan.tokens + (if s.cache.isSwapped id then (s.cache.sequence id).uncomputed
      else (s.cache.sequence id).length) ≤ s.config.maxBatchedTokens ∧
    max ((s.cache.sequence id).table.length : Int)
        (s.cache.blocksFor ((s.cache.sequence id).length + 1)) ≤
      s.cache.device.freeCount - plan.reserved := by
  simp only [canStart, Bool.and_eq_true, decide_eq_true_eq, and_assoc]
  rfl

theorem room_of_canStart (orderly : s.Orderly [] [] slack) (knows : s.cache.Knows id) {plan : Plan}
    (reserved : 0 ≤ plan.reserved) (start : s.canStart plan id = true) :
    (s.cache.sequence id).table.length ≤ s.cache.device.freeCount ∧
      (s.cache.sequence id).blockCount ≤ s.cache.device.freeCount := by
  obtain ⟨-, -, room⟩ := canStart_iff.mp start
  have blocks := blocksFor_eq orderly.sound.filed knows ((s.cache.sequence id).length + 1)
  have more : (s.cache.sequence id).blockCount ≤
      (s.cache.sequence id).blocksFor ((s.cache.sequence id).length + 1) :=
    Sequence.blocksFor_mono _ (Nat.le_succ _)
  push_cast at blocks
  rw [blocks] at room
  omega

/-- What a sequence has that is about to run. -/
structure Ready (c : Cache) (id : SeqId) (slack : Prop := False) : Prop where
  device : c.isSwapped id = false
  table : (c.sequence id).Covered 0 slack

/-- What letting a sequence run does. -/
structure Started (s s' : Scheduler) (id : SeqId) (plan plan' : Plan) (slack : Prop := False) :
    Prop where
  orderly : s'.Orderly [] [] slack
  config : s'.config = s.config
  handled : s.cache.Handled s'.cache id
  changes : s.cache.Changes s'.cache
  noted : ∃ q, s.cache.Noted s'.cache id q
  waiting : s'.waiting = s.waiting
  preempted : s'.preempted = s.preempted
  count : s'.preemptedLast = s.preemptedLast
  running : s'.running = s'.queued id s.running
  requests : s'.requests = s.requests
  account : (s'.cache.sequence id).account = (s.cache.sequence id).account
  computed : (s'.cache.sequence id).computed = (s.cache.sequence id).computed
  reserved : plan'.reserved = plan.reserved + s'.demandOf id
  tokens : plan'.tokens = plan.tokens + (s'.cache.sequence id).uncomputed
  swapIn : plan'.swapIn = plan.swapIn

theorem Started.reserved_le {plan plan' : Plan} (started : s.Started s' id plan plan' slack) :
    plan.reserved ≤ plan'.reserved :=
  started.reserved ▸ Int.le_add_of_nonneg_right (growth_nonneg _ _ _)

theorem Started.reported {plan plan' : Plan} (started : s.Started s' id plan plan' slack)
    (journal : Logging.Journal) :
    s.Started { s' with cache := { s'.cache with journal } } id plan plan' slack :=
  { started with
    orderly := started.orderly.reported journal
    handled := started.handled.trans
      (.of_report started.handled.sound started.handled.knows' journal)
    changes := started.changes.tail (.reported _ journal)
    noted := by
      obtain ⟨q, noted⟩ := started.noted
      exact ⟨q, { noted with replaced := { noted.replaced with } }⟩ }

theorem startRunning_returns (orderly : s.Orderly [id] [] slack) (ready : Ready s.cache id slack)
    (short : (s.cache.sequence id).length < s.config.maxLength) (plan : Plan) :
    (startRunning plan id).Returns s fun plan' s' => s.Started s' id plan plan' slack := by
  have knows := (orderly.lined.apart id List.mem_cons_self).1
  have progressed := orderly.staged.progressed id knows
  simp only [startRunning, Action.returns_bind]
  refine edit_returns knows ⟨rfl, rfl⟩ fun c noted => ?_
  simp only [Action.returns_modify, Action.returns_get, Action.returns_pure]
  have self := noted.replaced.self
  have status : (c.sequence id).status = .running := by rw [self]
  have device : c.isSwapped id = false :=
    (Cache.isSwapped_congr noted.swapped id).trans ready.device
  have handled := Cache.Handled.of_noted orderly.sound noted
  have worked : { s with cache := c }.Orderly [id] [] slack := by
    refine orderly.worked handled ⟨rfl, rfl, fun _ => rfl⟩ ?_ fun _ => device
    rw [self]
    exact ⟨progressed.natural, progressed.computed, by simp⟩
  refine ⟨worked.linedUp rfl status (queued_perm _ id _) ⟨fun _ => ⟨device, ?_⟩, ?_, ?_⟩ ?_, rfl,
    handled, .single (.noted noted (Int.le_refl _)), ⟨_, noted⟩, rfl, rfl, rfl, rfl, rfl,
    noted.account id, ?_, rfl, rfl, rfl⟩
  · rw [self]
    exact ready.table
  · exact fun swapped => by simp [device] at swapped
  · exact fun other => absurd status other
  · rw [self]
    exact short
  · rw [self]

/-- What a sequence gets back that is about to run again. -/
structure Regained (c c' : Cache) (id : SeqId) (moves : Moves) (slack : Prop := False) : Prop where
  handled : c.Handled c' id
  ready : Ready c' id slack
  progressed : Cache.Progressed (c'.sequence id)
  account : (c'.sequence id).account = (c.sequence id).account
  computed : if c.isSwapped id then (c'.sequence id).computed = (c.sequence id).computed
    else (c'.sequence id).computed < (c'.sequence id).length
  supplied : c.Supplied c'
  furnished : Furnished c c' id moves
  how : moves = {} ∧ c.Changes c' ∨ ∃ blocks, c.SwappedIn c' id blocks ∧
    moves = .ofList ((c.sequence id).table.zip blocks)

theorem allocate_regained (slack : Prop) (sound : c.Sound) (knows : c.Knows id)
    (device : c.isSwapped id = false) (bare : (c.sequence id).table = []) (untouched : Cache.Progressed (c.sequence id))
    (room : (c.sequence id).blockCount ≤ c.device.freeCount) :
    (Cache.allocate id).Returns c fun _ c' => Regained c c' id {} slack := by
  refine (Cache.allocate_returns sound knows device bare room).weaken ?_
  rintro _ c' ⟨sound', table, computed, cached, allocated⟩
  have self := allocated.replaced.self
  have handled : c.Handled c' id := .of_replaced sound' allocated.replaced
    (fun other _ => Cache.isSwapped_congr allocated.swapped other) rfl allocated.size
  refine ⟨handled, ⟨(Cache.isSwapped_congr allocated.swapped id).trans device, ?_⟩, ?_, ?_, ?_,
    allocated.supplied, .anew allocated.marked, Or.inl ⟨rfl, .single (.allocated allocated)⟩⟩
  · refine Or.inl ?_
    rw [self]
    exact allocated.covered
  · rw [self]
    exact ⟨allocated.computed_nonneg, Int.le_of_lt allocated.computed_lt, untouched.untouched⟩
  · rw [self]
    rfl
  · rw [if_neg (by simp [device]), self]
    exact allocated.computed_lt

theorem restore_returns (sound : s.cache.Sound) (knows : s.cache.Knows id)
    (placed : s.cache.Placed id 0 slack) (status : (s.cache.sequence id).status = .preempted)
    (progressed : Cache.Progressed (s.cache.sequence id))
    (room : (s.cache.sequence id).table.length ≤ s.cache.device.freeCount ∧
      (s.cache.sequence id).blockCount ≤ s.cache.device.freeCount) :
    (restore id).Returns s fun moves s' => (∃ c, s' = { s with cache := c }) ∧
      Regained s.cache s'.cache id moves slack := by
  simp only [restore, Action.returns_bind, Action.returns_get]
  split
  · rename_i swapped
    rw [returns_onCache]
    refine (Cache.swapIn_returns sound knows swapped room.1).weaken ?_
    rintro moves c ⟨sound', blocks, back, which⟩
    have self := back.replaced.self
    have handled : s.cache.Handled c id := .of_replaced sound' back.replaced
      (fun _ => back.isSwapped_others) rfl back.renewed.size
    have furnished : Furnished s.cache c id moves := by
      rw [which]
      refine .back swapped (by rw [self]) back.length fun b new => ?_
      rw [back.renewed.reset b new]
    refine ⟨⟨c, rfl⟩, handled, ⟨back.isSwapped_self sound.filed.swapped_nodup, ?_⟩, ?_, ?_, ?_,
      back.supplied sound.filed.swapped_nodup, furnished, Or.inr ⟨blocks, back, which⟩⟩
    · refine (placed.swapped swapped).2.congr ?_ ?_ ?_ <;> rw [self]
      · exact back.length
      · rfl
    · rw [self]
      exact ⟨progressed.natural, progressed.computed, progressed.untouched⟩
    · rw [self]
      rfl
    · rw [if_pos swapped, self]
  · rename_i onDevice
    have device : s.cache.isSwapped id = false := by simpa using onDevice
    have bare := placed.bare (by simp [status]) device
    simp only [Action.returns_bind, returns_onCache, Action.returns_pure]
    exact (allocate_regained slack sound knows device bare progressed room.2).weaken
      fun _ c regained => ⟨⟨c, rfl⟩, regained⟩

/-- What letting one more sequence run adds to a run of admissions. -/
structure Rejoined (s s' : Scheduler) (id : SeqId) (plan plan' : Plan) (moves : Moves)
    (slack : Prop := False) : Prop where
  started : ∃ c, { s with cache := c }.Started s' id plan plan' slack
  handled : s.cache.Handled s'.cache id
  account : (s'.cache.sequence id).account = (s.cache.sequence id).account
  progress : if s.cache.isSwapped id then
      (s'.cache.sequence id).uncomputed = (s.cache.sequence id).uncomputed
    else 0 < (s'.cache.sequence id).uncomputed ∧
      (s'.cache.sequence id).uncomputed ≤ (s.cache.sequence id).length
  supplied : s.cache.Supplied s'.cache
  furnished : Furnished s.cache s'.cache id moves
  resumed : Resumed s.cache id s'.cache moves

/-- A preempted sequence, or a waiting one behind all preempted ones, was let run. -/
structure Entered (s s' : Scheduler) (plan plan' : Plan) (id : SeqId) (slack : Prop := False) :
    Prop where
  before : s.Orderly [] [] slack
  after : s'.Orderly [] [] slack
  start : s.canStart plan id = true
  queue : s.preempted = id :: s'.preempted ∧ s'.waiting = s.waiting ∨
    s.preempted = [] ∧ s'.preempted = [] ∧ s.waiting = id :: s'.waiting
  count : s'.preemptedLast = s.preemptedLast
  running : s'.running = s'.queued id s.running
  requests : s'.requests = s.requests
  config : s'.config = s.config
  handled : s.cache.Handled s'.cache id
  account : (s'.cache.sequence id).account = (s.cache.sequence id).account
  progress : if s.cache.isSwapped id then
      (s'.cache.sequence id).uncomputed = (s.cache.sequence id).uncomputed
    else 0 < (s'.cache.sequence id).uncomputed ∧
      (s'.cache.sequence id).uncomputed ≤ (s.cache.sequence id).length
  supplied : s.cache.Supplied s'.cache
  furnished : ∃ moves, Furnished s.cache s'.cache id moves ∧
    plan'.swapIn = plan.swapIn.insertAll moves.entries
  reserved : plan'.reserved = plan.reserved + s'.demandOf id
  tokens : plan'.tokens = plan.tokens + (s'.cache.sequence id).uncomputed

/-- The first of a queue, if there is one, cannot start. -/
def Stuck (s : Scheduler) (plan : Plan) (queue : List SeqId) : Prop :=
  ∀ id ∈ queue.head?, s.canStart plan id = false

/-- A run of admissions, seen in the queues and in the plan. -/
abbrev Advanced (a b : Scheduler × Plan) (slack : Prop := False) : Prop :=
  Relation.ReflTransGen (fun a b => ∃ id, a.1.Entered b.1 a.2 b.2 id slack) a b

theorem start_regained {moves : Moves} (orderly : s.Orderly [id] [] slack)
    (regained : Regained s.cache c id moves slack)
    (short : (s.cache.sequence id).length < s.config.maxLength) (plan : Plan) :
    (startRunning plan id).Returns { s with cache := c } fun plan' s' =>
      s.Rejoined s' id plan plan' moves slack := by
  have worked : { s with cache := c }.Orderly [id] [] slack :=
    orderly.worked regained.handled ⟨rfl, rfl, fun _ => rfl⟩ regained.progressed
      fun _ => regained.ready.device
  have length := Sequence.length_of_account regained.account
  refine (startRunning_returns worked regained.ready (length ▸ short) plan).weaken
    fun plan' s' started => ⟨⟨c, started⟩, regained.handled.trans started.handled,
      started.account.trans regained.account, ?_, ?_, ?_, ?_⟩
  · have computed : (s'.cache.sequence id).computed = (c.sequence id).computed := started.computed
    have length' : (s'.cache.sequence id).length = (s.cache.sequence id).length :=
      (Sequence.length_of_account started.account).trans length
    have natural := regained.progressed.natural
    have progress := regained.computed
    unfold Sequence.uncomputed
    rw [length', computed]
    split
    · rename_i swapped
      rw [if_pos swapped] at progress
      rw [progress]
    · rename_i device
      rw [if_neg device] at progress
      omega
  · obtain ⟨_, noted⟩ := started.noted
    exact regained.supplied.trans (.of_noted noted)
  · obtain ⟨_, noted⟩ := started.noted
    exact regained.furnished.noted noted started.computed
  rcases regained.how with ⟨rfl, changes⟩ | ⟨blocks, back, rfl⟩
  · exact .covered (changes.trans started.changes)
  · exact .back back started.changes

theorem Rejoined.entered {t : Scheduler} {plan plan₀ plan' : Plan} {moves : Moves}
    (rejoined : t.Rejoined s' id plan₀ plan' moves slack) (orderly : s.Orderly [] [] slack)
    (start : s.canStart plan id = true) (reserved : plan₀.reserved = plan.reserved)
    (tokens : plan₀.tokens = plan.tokens) (cache : t.cache = s.cache) (config : t.config = s.config)
    (count : t.preemptedLast = s.preemptedLast) (running : t.running = s.running)
    (requests : t.requests = s.requests)
    (swapIn : plan₀.swapIn = plan.swapIn.insertAll moves.entries)
    (queue : s.preempted = id :: t.preempted ∧ t.waiting = s.waiting ∨
      s.preempted = [] ∧ t.preempted = [] ∧ s.waiting = id :: t.waiting) :
    s.Entered s' plan plan' id slack := by
  obtain ⟨⟨c, started⟩, handled, account, progress, supplied, furnished, _⟩ := rejoined
  rw [cache] at handled account progress supplied furnished
  constructor
  case before => exact orderly
  case after => exact started.orderly
  case start => exact start
  case queue =>
    rw [started.preempted, started.waiting]
    exact queue
  case count => exact started.count.trans count
  case running => rw [started.running, running]
  case requests => rw [started.requests, requests]
  case config => rw [started.config, config]
  case handled => exact handled
  case account => exact account
  case progress => exact progress
  case supplied => exact supplied
  case furnished => exact ⟨moves, furnished, started.swapIn.trans swapIn⟩
  case reserved => rw [started.reserved, reserved]
  case tokens => rw [started.tokens, tokens]

/-- What is known of a sequence that has just left its queue to be let run. -/
structure Departed (s t : Scheduler) (id : SeqId) (slack : Prop := False) : Prop where
  aside : t.Orderly [id] [] slack
  knows : s.cache.Knows id
  placed : s.cache.Placed id 0 slack
  progressed : Cache.Progressed (s.cache.sequence id)
  short : (s.cache.sequence id).length < s.config.maxLength

theorem Orderly.departed (orderly : s.Orderly [] [] slack) (status : Status) {rest : List SeqId}
    (first : s.queueOf status = id :: rest) : Departed s (s.withQueue status rest) id slack := by
  have member : id ∈ s.queueOf status := by simp [first]
  have registered := orderly.mem_values status member
  have knows := orderly.knows registered
  have left : s.Left (s.withQueue status rest) id :=
    orderly.lined.leaves status member (by simp [first])
  exact ⟨orderly.left registered left, knows, orderly.staged.placed id knows List.not_mem_nil,
    orderly.staged.progressed id knows, orderly.registered.short id registered List.not_mem_nil⟩

theorem Departed.unswapped {t : Scheduler} (departed : Departed s t id slack)
    (status : (s.cache.sequence id).status = .waiting) : s.cache.isSwapped id = false := by
  by_contra swapped
  have shelved := (departed.placed.swapped (by simpa using swapped)).1
  simp [status] at shelved

theorem Rejoined.admitted {t : Scheduler} {plan plan₀ plan' : Plan} {moves : Moves}
    {done : List SeqId} (rejoined : t.Rejoined s' id plan₀ plan' moves slack)
    (before : Admitted c done t.cache plan.swapIn) (fresh : id ∉ done)
    (swapIn : plan₀.swapIn = plan.swapIn.insertAll moves.entries) :
    Admitted c (id :: done) s'.cache plan'.swapIn := by
  obtain ⟨_, started⟩ := rejoined.started
  rw [started.swapIn, swapIn]
  exact before.next fresh rejoined.handled rejoined.resumed

theorem Rejoined.reported {t : Scheduler} {plan plan' : Plan} {moves : Moves}
    (rejoined : t.Rejoined s' id plan plan' moves slack) (journal : Logging.Journal) :
    t.Rejoined { s' with cache := { s'.cache with journal } } id plan plan' moves slack := by
  obtain ⟨⟨c, started⟩, handled, account, progress, supplied, furnished, resumed⟩ := rejoined
  refine ⟨⟨c, started.reported journal⟩,
    handled.trans (.of_report handled.sound handled.knows' journal), account, progress,
    supplied.trans (.of_device rfl rfl), ?_, ?_⟩
  · cases furnished with
    | anew marked => exact .anew marked
    | back swapped table length plain => exact .back swapped table length plain
  · cases resumed with
    | covered changes => exact .covered (changes.tail (.reported _ journal))
    | back back changes => exact .back back (changes.tail (.reported _ journal))

/-- Preempted sequences run again, from the first one on, as far as there is room. -/
theorem readmit_returns (c : Cache) (ids : List SeqId) :
    ∀ {s : Scheduler} {plan : Plan} {done : List SeqId}, s.Orderly [] [] slack → s.preempted = ids →
      0 ≤ plan.reserved → Admitted c done s.cache plan.swapIn → (∀ id ∈ done, id ∉ ids) →
      ( readmit plan ids).Returns s fun plan' s' => s'.Orderly [] [] slack ∧ s'.config = s.config ∧
        s'.waiting = s.waiting ∧ 0 ≤ plan'.reserved ∧
        ∃ done', Admitted c done' s'.cache plan'.swapIn ∧ (∀ id ∈ done', id ∈ done ∨ id ∈ ids) ∧
          Advanced (s, plan) (s', plan') slack ∧ s'.Stuck plan' s'.preempted := by
  induction ids with
  | nil =>
      intro s plan done orderly empty reserved admitted _
      rw [ readmit, Action.returns_pure]
      refine ⟨orderly, rfl, rfl, reserved, done, admitted, fun _ => Or.inl, .refl, ?_⟩
      simp [Stuck, empty]
  | cons id rest ih =>
      intro s plan done orderly preempted reserved admitted apart
      simp only [ readmit, Action.returns_bind, Action.returns_get]
      split
      · rename_i stuck
        refine Action.returns_pure.mpr
          ⟨orderly, rfl, rfl, reserved, done, admitted, fun _ => Or.inl, .refl, ?_⟩
        simpa [Stuck, preempted] using stuck
      · rename_i started
        have started : s.canStart plan id = true := by simpa using started
        simp only [Action.returns_bind, Action.returns_set]
        have distinct : s.preempted.Nodup := orderly.lined.nodup .preempted
        have departed : Departed s { s with preempted := rest } id slack :=
          orderly.departed .preempted preempted
        have status := (orderly.lined.preempted id (by simp [preempted])).2
        have room := room_of_canStart orderly departed.knows reserved started
        -- set aside, the sequence gets its blocks back or new ones, and joins the running queue
        refine (restore_returns (s := { s with preempted := rest }) orderly.sound departed.knows
          departed.placed status departed.progressed room).weaken ?_
        rintro moves s₁ ⟨⟨c₁, same⟩, regained⟩
        subst same
        have regained : Regained s.cache c₁ id moves slack := regained
        refine (start_regained departed.aside regained departed.short _).weaken ?_
        intro plan' s₂ rejoined
        rw [returns_look]
        refine report_returns fun journal => ?_
        have rejoined := rejoined.reported journal
        have entered := rejoined.entered orderly started rfl rfl rfl rfl rfl rfl rfl rfl
          (Or.inl ⟨preempted, rfl⟩)
        have admitted₂ := rejoined.admitted admitted
          (fun member => apart id member List.mem_cons_self) rfl
        obtain ⟨_, started⟩ := rejoined.started
        refine (ih started.orderly started.preempted (reserved.trans started.reserved_le) admitted₂
          (apart_rest (preempted ▸ distinct) apart)).weaken ?_
        rintro plan' s₃ ⟨orderly₃, config, waiting, reserved₃, done', admitted₃, among, advanced,
          stuck⟩
        refine ⟨orderly₃, config.trans started.config, waiting.trans started.waiting, reserved₃,
          done', admitted₃, fun other again => ?_, .head ⟨id, entered⟩ advanced, stuck⟩
        have := among other again
        simp only [List.mem_cons] at this ⊢
        tauto

/-- Waiting sequences run, from the first one on, as far as there is room. -/
theorem admitWaiting_returns (c : Cache) (ids : List SeqId) :
    ∀ {s : Scheduler} {plan : Plan} {done : List SeqId}, s.Orderly [] [] slack → s.preempted = [] →
      s.waiting = ids → 0 ≤ plan.reserved → Admitted c done s.cache plan.swapIn →
      (∀ id ∈ done, id ∉ ids) →
      (admitWaiting plan ids).Returns s fun plan' s' => s'.Orderly [] [] slack ∧ s'.config = s.config ∧
        s'.preempted = [] ∧ ∃ done', Admitted c done' s'.cache plan'.swapIn ∧
          Advanced (s, plan) (s', plan') slack ∧ s'.Stuck plan' s'.waiting := by
  induction ids with
  | nil =>
      intro s plan done orderly resumed empty _ admitted _
      rw [admitWaiting, Action.returns_pure]
      refine ⟨orderly, rfl, resumed, done, admitted, .refl, ?_⟩
      simp [Stuck, empty]
  | cons id rest ih =>
      intro s plan done orderly resumed waiting reserved admitted apart
      simp only [admitWaiting, Action.returns_bind, Action.returns_get]
      split
      · rename_i stuck
        refine Action.returns_pure.mpr ⟨orderly, rfl, resumed, done, admitted, .refl, ?_⟩
        simpa [Stuck, waiting] using stuck
      · rename_i started
        have started : s.canStart plan id = true := by simpa using started
        simp only [Action.returns_bind, Action.returns_set, returns_onCache]
        have distinct : s.waiting.Nodup := orderly.lined.nodup .waiting
        have departed : Departed s { s with waiting := rest } id slack :=
          orderly.departed .waiting waiting
        have status := (orderly.lined.waiting id (by simp [waiting])).2
        have room := room_of_canStart orderly departed.knows reserved started
        have device := departed.unswapped status
        have bare := departed.placed.bare (by simp [status]) device
        refine (allocate_regained slack orderly.sound departed.knows device bare departed.progressed
          room.2).weaken fun _ c₁ regained => ?_
        refine (start_regained departed.aside regained departed.short _).weaken ?_
        intro plan' s₂ rejoined
        have entered := rejoined.entered orderly started rfl rfl rfl rfl rfl rfl rfl rfl
          (Or.inr ⟨resumed, resumed, waiting⟩)
        have admitted₂ := rejoined.admitted admitted
          (fun member => apart id member List.mem_cons_self) rfl
        obtain ⟨_, started⟩ := rejoined.started
        refine (ih started.orderly (started.preempted.trans resumed) started.waiting
          (reserved.trans started.reserved_le) admitted₂
          (apart_rest (waiting ▸ distinct) apart)).weaken ?_
        rintro plan' s₃ ⟨orderly₃, config, resumed₃, done', admitted₃, advanced, stuck⟩
        exact ⟨orderly₃, config.trans started.config, resumed₃, done', admitted₃,
          .head ⟨id, entered⟩ advanced, stuck⟩

end PagedServing.Scheduler
