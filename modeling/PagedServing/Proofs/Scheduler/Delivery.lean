import PagedServing.Proofs.Scheduler.Sessions

/-! # Delivery

What a sequence generates is handed over piece by piece: each token once and in order, and why it
ended with the last piece. This needs that no two sequences go by one name, since outputs carry
nothing but names.
-/

namespace PagedServing.Scheduler.Session

variable {ω : Type} {config : Config} {device : Device ω} {r r' : Session ω} {c : Call} {id : SeqId}

/-- The outputs that came up under the name of a sequence, in order. -/
def outputsOf (r : Session ω) (id : SeqId) : List Output :=
  r.log.filter (·.requestId = (r.scheduler.sequence id).requestId)

/-- A sequence is handed in only if its name is not that of one that was taken in before. -/
def NamesApart (r : Session ω) : Call → Prop
  | .add id => ∀ other, r.TookIn other →
      (r.scheduler.sequence other).requestId ≠ (r.scheduler.sequence id).requestId
  | _ => True

instance (r : Session ω) : (c : Call) → Decidable (r.NamesApart c)
  | .create _ => isTrue trivial
  | .add id => inferInstanceAs (Decidable (∀ other ∈ r.taken.map Prod.fst,
      (r.scheduler.sequence other).requestId ≠ (r.scheduler.sequence id).requestId))
  | .abort _ => isTrue trivial
  | .releaseAll _ => isTrue trivial
  | .takePending => isTrue trivial
  | .step => isTrue trivial

/-- The outputs of a sequence are its completion, and tell why it ended in the last of them if it
    has. Then it holds no blocks any more. -/
structure Conveyed (r : Session ω) (id : SeqId) : Prop where
  tokens : (r.outputsOf id).flatMap (·.tokens) = (r.scheduler.sequence id).completion
  live : (r.scheduler.sequence id).isFinished = false → ∀ o ∈ r.outputsOf id, o.reason = none
  ended : (r.scheduler.sequence id).isFinished = true → (r.scheduler.sequence id).table = [] ∧
    ∃ front last, r.outputsOf id = front ++ [last] ∧ (∀ o ∈ front, o.reason = none) ∧
      last.reason = (r.scheduler.sequence id).finishReason ∧ last.reason ≠ none

/-- What holds throughout a session in which names are kept apart. -/
structure Delivering (r : Session ω) : Prop extends r.Enrolled where
  voiced : ∀ id, r.TookIn id → r.scheduler.ledger.Voiced id (r.outputsOf id)
  apart : ∀ id other, r.TookIn id → r.TookIn other →
    r.scheduler.ledger.name id = r.scheduler.ledger.name other → id = other
  spoken : ∀ o ∈ r.log, ∃ id, r.TookIn id ∧ r.scheduler.ledger.name id = o.requestId

theorem Delivering.heard (delivering : r.Delivering) (told : Told device r r' c)
    (regular : r.Regular config) (tookIn : r.TookIn id) :
    r'.scheduler.ledger.name id = r.scheduler.ledger.name id ∧
      r'.scheduler.ledger.Voiced id (r'.outputsOf id) := by
  obtain ⟨more, log, speakers⟩ := told.speakers
  have admitted := delivering.admitted id tookIn
  have voiced := told.voiced regular admitted log (delivering.voiced id tookIn)
  have name : r'.scheduler.ledger.name id = r.scheduler.ledger.name id :=
    congrArg Origin.requestId (told.origin (admitted.knows regular)).2
  refine ⟨name, ?_⟩
  have grown : r'.outputsOf id =
      r.outputsOf id ++ more.filter (·.requestId = r.scheduler.ledger.name id) := by
    show r'.log.filter (·.requestId = r'.scheduler.ledger.name id) = _
    rw [name, log, List.filter_append]
    rfl
  rw [grown]
  split at voiced
  · exact voiced
  · -- what is said by others goes by other names
    rename_i absent
    have silent : more.filter (·.requestId = r.scheduler.ledger.name id) = [] := by
      rw [List.filter_eq_nil_iff]
      intro o among own
      obtain ⟨other, member, spoken⟩ := speakers o among
      have same : other = id := delivering.apart other id (delivering.requests other member) tookIn
        (spoken.trans (of_decide_eq_true own))
      exact absent (same ▸ member)
    rw [silent]
    exact voiced

theorem Delivering.told (delivering : r.Delivering) (told : Told device r r' c)
    (regular : r.Regular config) (onward : r.scheduler.Onward r'.scheduler)
    (apart : r.NamesApart c) : r'.Delivering := by
  have before := fun id (tookIn : r.TookIn id) => delivering.heard told regular tookIn
  have enrolled := delivering.toEnrolled.told told regular onward
  obtain ⟨more, log, speakers⟩ := told.speakers
  have spoken : ∀ o ∈ r'.log, ∃ id, r.TookIn id ∧ r'.scheduler.ledger.name id = o.requestId := by
    intro o among
    rw [log, List.mem_append] at among
    have speaker : ∃ id, r.TookIn id ∧ r.scheduler.ledger.name id = o.requestId := by
      rcases among with old | new
      · exact delivering.spoken o old
      · obtain ⟨id, member, name⟩ := speakers o new
        exact ⟨id, delivering.requests id member, name⟩
    obtain ⟨id, tookIn, name⟩ := speaker
    exact ⟨id, tookIn, (before id tookIn).1.trans name⟩
  have apart' : ∀ id other, r.TookIn id → r.TookIn other →
      r'.scheduler.ledger.name id = r'.scheduler.ledger.name other → id = other := by
    intro id other tookIn tookIn' same
    rw [(before id tookIn).1, (before other tookIn').1] at same
    exact delivering.apart id other tookIn tookIn' same
  -- either nobody was handed in, or one sequence was, of which nothing is heard yet
  rcases told.taken regular with ⟨taken, _⟩ |
    ⟨new, rfl, taken, sameLog, transcript, requests, absent, going⟩
  · have tookIn : ∀ id, r'.TookIn id ↔ r.TookIn id := fun id => by rw [TookIn, TookIn, taken]
    simp only [← tookIn] at before spoken apart'
    exact ⟨enrolled, fun id among => (before id among).2, apart', spoken⟩
  · have tookIn := tookIn_append taken
    have member : new ∈ r'.scheduler.requests.values := by simp [requests]
    have unlike : ∀ id, r.TookIn id →
        r'.scheduler.ledger.name id ≠ r'.scheduler.ledger.name new := by
      intro id among same
      rw [Ledger.name, Ledger.name, transcript] at same
      exact apart id among same
    refine ⟨enrolled, ?voiced, ?apart, ?spoken⟩
    case voiced =>
      intro id among
      rcases (tookIn id).mp among with old | rfl
      · exact (before id old).2
      · have silent : r'.outputsOf id = [] := by
          refine List.filter_eq_nil_iff.mpr fun o among own => ?_
          obtain ⟨other, old, name⟩ := spoken o among
          exact unlike other old (name.trans (of_decide_eq_true own))
        rw [silent, Ledger.Voiced]
        exact (if_pos member).mpr going
    case apart =>
      intro id other among among' same
      rcases (tookIn id).mp among with old | rfl <;> rcases (tookIn other).mp among' with old' | rfl
      · exact apart' id other old old' same
      · exact absurd same (unlike id old)
      · exact absurd same.symm (unlike other old')
      · rfl
    case spoken =>
      intro o among
      obtain ⟨id, old, name⟩ := spoken o among
      exact ⟨id, (tookIn id).mpr (Or.inl old), name⟩

theorem Delivering.conveyed (delivering : r.Delivering) (regular : r.Regular config)
    (tookIn : r.TookIn id) : r.Conveyed id := by
  have orderly := regular.orderly
  have voiced := delivering.voiced id tookIn
  have admitted := delivering.admitted id tookIn
  by_cases member : id ∈ r.scheduler.requests.values
  · have going : Going (r.outputsOf id) (r.scheduler.ledger.transcript id) := by
      simpa only [Ledger.Voiced, if_pos (show id ∈ r.scheduler.ledger.requests.values from member)]
        using voiced
    exact ⟨going.tokens, fun _ => going.unended, fun terminal =>
      absurd member (orderly.unregistered terminal)⟩
  · have gone : Gone (r.outputsOf id) (r.scheduler.ledger.transcript id) := by
      simpa only [Ledger.Voiced, if_neg (show id ∉ r.scheduler.ledger.requests.values from member)]
        using voiced
    have terminal := admitted.resolve_left member
    refine ⟨gone.tokens, fun live => by simp [live] at terminal, fun _ => ⟨?_, ?_⟩⟩
    · have placed := orderly.staged.placed id (admitted.knows regular) List.not_mem_nil
      have idle : (r.scheduler.cache.sequence id).status.isTerminal = true := terminal
      refine placed.bare (fun runs => by simp [runs, Status.isTerminal] at idle) ?_
      by_contra swapped
      have shelved := (placed.swapped (by simpa using swapped)).1
      simp [shelved, Status.isTerminal] at idle
    · obtain ⟨front, last, split, unended, reason, ended⟩ := gone.last
      exact ⟨front, last, split, unended, reason, Option.isSome_iff_ne_none.mp ended⟩

theorem Leads.delivering (leads : Leads device NamesApart r r') (regular : r.Regular config)
    (valid : device.Valid) (delivering : r.Delivering) : r'.Delivering := by
  induction leads with
  | refl => exact delivering
  | call before proper apart ih =>
      have regular' := (before.regular regular valid).1
      exact ih.told (perform_told regular' valid proper) regular'
        (perform_onward regular' valid proper).2 apart

theorem opened_delivering (config : Config) (threshold : Int) (w : ω) :
    (opened config threshold w).Delivering where
  toEnrolled := opened_enrolled config threshold w
  voiced _ none := absurd none List.not_mem_nil
  apart _ _ none := absurd none List.not_mem_nil
  spoken _ none := absurd none List.not_mem_nil

/-- Whatever is called, and whatever the device answers: the outputs of every sequence that was
    taken in are its completion, and the last of them tells why it ended, once it has. From then
    on it stays as it is. -/
theorem delivered_once (valid : device.Valid) {threshold : Int} {w : ω}
    (run : Leads device NamesApart (opened config threshold w) r) (tookIn : r.TookIn id) :
    r.Conveyed id ∧ ∀ r', Leads device NamesApart r r' →
      (r.scheduler.sequence id).isFinished = true →
        r'.scheduler.sequence id = r.scheduler.sequence id := by
  have started := opened_regular config threshold w
  have regular := (run.regular started valid).1
  have delivering := run.delivering started valid (opened_delivering config threshold w)
  refine ⟨delivering.conveyed regular tookIn, fun r' onward terminal => ?_⟩
  exact (onward.regular regular valid).2.ended id terminal

/-- Two requests get tokens together, and one of them is cancelled then. -/
theorem delivered_once_sevens :
    let calls := [.create { prompt := [5, 6], blockSize := 1 }, .create { prompt := [5], blockSize := 1 },
      .add 0, .add 1, .step, .takePending, .step, .abort "1", .step]
    let r := (opened (smallConfig .swap true) 20 ()).performAll sevens calls
    Allowed sevens NamesApart (opened (smallConfig .swap true) 20 ()) calls ∧
      (r.outputsOf 1).map (·.tokens) = [[7], [7], []] ∧ r.Conveyed 1 ∧
      (r.perform sevens .step).scheduler.sequence 1 = r.scheduler.sequence 1 := by
  intro calls r
  have made : Allowed sevens NamesApart (opened (smallConfig .swap true) 20 ()) calls := by
    decide +kernel
  have tookIn : r.TookIn 1 := by decide +kernel
  have terminal : (r.scheduler.sequence 1).isFinished = true := by decide +kernel
  obtain ⟨conveyed, final⟩ := delivered_once sevens_valid made.leads tookIn
  exact ⟨made, by decide +kernel, conveyed, final _ (.call .refl trivial trivial) terminal⟩

end PagedServing.Scheduler.Session
