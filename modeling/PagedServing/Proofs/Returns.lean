import PagedServing.Fault

/-! # Actions that return

An action returns from a state if it meets no fault there. The laws take a composed action
apart, so that what it leaves follows from what its parts leave.
-/

namespace PagedServing.Action

variable {σ τ α β : Type} {s : σ}

/-- The action meets no fault from `s`, and `post` holds of its value and of the state
    that it leaves. -/
def Returns (act : Action σ α) (s : σ) (post : α → σ → Prop) : Prop :=
  ∃ a t, act s = .ok a t ∧ post a t

theorem Returns.weaken {act : Action σ α} {post post' : α → σ → Prop}
    (returns : act.Returns s post) (weaker : ∀ a t, post a t → post' a t) :
    act.Returns s post' := by
  obtain ⟨a, t, run, holds⟩ := returns
  exact ⟨a, t, run, weaker a t holds⟩

/-- The value and the state are those that the action returns. -/
theorem Returns.run {act : Action σ α} {post : α → σ → Prop} (returns : act.Returns s post) :
    act.Returns s fun a t => act s = .ok a t ∧ post a t := by
  obtain ⟨a, t, run, holds⟩ := returns
  exact ⟨a, t, run, run, holds⟩

/-- Actions are deterministic: what holds after an action that returns holds of the value
    and the state that it is known to return. -/
theorem Returns.of_run {act : Action σ α} {post : α → σ → Prop} {a : α} {t : σ}
    (returns : act.Returns s post) (run : act s = .ok a t) : post a t := by
  obtain ⟨a', t', run', holds⟩ := returns
  rw [run] at run'
  cases run'
  exact holds

/-- What an action does can be found out by running it. -/
instance {act : Action σ α} {post : α → σ → Prop} [∀ a t, Decidable (post a t)] :
    Decidable (act.Returns s post) :=
  match run : act s with
  | .ok a t =>
      decidable_of_iff (post a t) ⟨fun holds => ⟨a, t, run, holds⟩, fun returns => returns.of_run run⟩
  | .error _ _ => isFalse fun ⟨_, _, run', _⟩ => nomatch run.symm.trans run'

/-- The state that the action reaches, whether it meets a fault or not. -/
def after (act : Action σ α) (s : σ) : σ :=
  match act s with
  | .ok _ t => t
  | .error _ t => t

theorem Returns.after {act : Action σ α} {post : α → σ → Prop} (returns : act.Returns s post) :
    ∃ a, post a (act.after s) := by
  obtain ⟨a, t, run, holds⟩ := returns
  exact ⟨a, by simpa [Action.after, run] using holds⟩

@[simp]
theorem returns_pure {a : α} {post : α → σ → Prop} :
    (pure a : Action σ α).Returns s post ↔ post a s := by
  constructor
  · rintro ⟨_, _, run, holds⟩
    cases run
    exact holds
  · exact fun holds => ⟨a, s, rfl, holds⟩

theorem run_get : (get : Action σ σ) s = .ok s s :=
  rfl

theorem run_modify (f : σ → σ) : (modify f : Action σ PUnit) s = .ok ⟨⟩ (f s) :=
  rfl

/-- What follows an action goes on with its value, from the state that it returns. -/
theorem bind_of_run {act : Action σ α} {next : α → Action σ β} {a : α} {t : σ}
    (run : act s = .ok a t) : (act >>= next) s = next a t := by
  simp [bind, EStateM.bind, run]

@[simp]
theorem returns_bind {act : Action σ α} {next : α → Action σ β} {post : β → σ → Prop} :
    (act >>= next).Returns s post ↔ act.Returns s fun a t => (next a).Returns t post := by
  constructor
  · rintro ⟨b, u, run, holds⟩
    simp only [bind, EStateM.bind] at run
    split at run
    · exact ⟨_, _, ‹_›, b, u, run, holds⟩
    · cases run
  · rintro ⟨a, t, first, b, u, second, holds⟩
    exact ⟨b, u, by simp [bind, EStateM.bind, first, second], holds⟩

@[simp]
theorem returns_map {act : Action σ α} {f : α → β} {post : β → σ → Prop} :
    (f <$> act).Returns s post ↔ act.Returns s fun a t => post (f a) t := by
  rw [map_eq_pure_bind, returns_bind]
  simp only [returns_pure]

@[simp]
theorem returns_discard {act : Action σ α} {post : PUnit → σ → Prop} :
    (discard act : Action σ PUnit).Returns s post ↔ act.Returns s fun _ t => post ⟨⟩ t :=
  returns_map

theorem after_map {act : Action σ α} {f : α → β} : (f <$> act).after s = act.after s := by
  rw [map_eq_pure_bind]
  unfold after
  simp only [bind, EStateM.bind]
  cases act s <;> rfl

@[simp]
theorem returns_get {post : σ → σ → Prop} :
    (get : Action σ σ).Returns s post ↔ post s s := by
  constructor
  · rintro ⟨_, _, run, holds⟩
    cases run
    exact holds
  · exact fun holds => ⟨s, s, rfl, holds⟩

@[simp]
theorem returns_set {t : σ} {post : PUnit → σ → Prop} :
    (set t : Action σ PUnit).Returns s post ↔ post ⟨⟩ t := by
  constructor
  · rintro ⟨_, _, run, holds⟩
    cases run
    exact holds
  · exact fun holds => ⟨⟨⟩, t, rfl, holds⟩

@[simp]
theorem returns_modifyGet {f : σ → α × σ} {post : α → σ → Prop} :
    (modifyGet f : Action σ α).Returns s post ↔ post (f s).1 (f s).2 := by
  constructor
  · rintro ⟨_, _, run, holds⟩
    cases run
    exact holds
  · exact fun holds => ⟨_, _, rfl, holds⟩

@[simp]
theorem returns_modify {f : σ → σ} {post : PUnit → σ → Prop} :
    (modify f : Action σ PUnit).Returns s post ↔ post ⟨⟩ (f s) :=
  returns_modifyGet

@[simp]
theorem returns_throw {fault : Fault} {post : α → σ → Prop} :
    ¬ (throw fault : Action σ α).Returns s post := by
  rintro ⟨_, _, run, _⟩
  cases run

@[simp]
theorem returns_require {condition : Bool} {fault : Fault} {post : Unit → σ → Prop} :
    (require condition fault : Action σ Unit).Returns s post ↔ condition = true ∧ post () s := by
  cases condition <;> simp [require]

@[simp]
theorem returns_demand {value : Option α} {fault : Fault} {post : α → σ → Prop} :
    (demand value fault : Action σ α).Returns s post ↔ ∃ a, value = some a ∧ post a s := by
  cases value <;> simp [demand]

@[simp]
theorem returns_ofExcept {result : Except Fault α} {post : α → σ → Prop} :
    (ofExcept result : Action σ α).Returns s post ↔ ∃ a, result = .ok a ∧ post a s := by
  cases result <;> simp [ofExcept]

@[simp]
theorem returns_within {part : σ → τ} {put : σ → τ → σ} {act : Action τ α}
    {post : α → σ → Prop} :
    (within part put act).Returns s post ↔
      act.Returns (part s) fun a t => post a (put s t) := by
  constructor
  · rintro ⟨a, t, run, holds⟩
    unfold within at run
    split at run
    · cases run
      exact ⟨_, _, ‹_›, holds⟩
    · cases run
  · rintro ⟨a, t, run, holds⟩
    exact ⟨a, put s t, by simp [within, run], holds⟩

@[simp]
theorem returns_forM_nil {step : α → Action σ PUnit} {post : PUnit → σ → Prop} :
    (([] : List α).forM step).Returns s post ↔ post ⟨⟩ s :=
  returns_pure

@[simp]
theorem returns_forM_cons {x : α} {xs : List α} {step : α → Action σ PUnit}
    {post : PUnit → σ → Prop} :
    ((x :: xs).forM step).Returns s post ↔
      (step x).Returns s fun _ t => (xs.forM step).Returns t post :=
  returns_bind

/-- The action meets a fault from `s`, and `post` holds of it and of the state in which it is
    met. -/
def Fails (act : Action σ α) (s : σ) (post : Fault → σ → Prop) : Prop :=
  ∃ fault t, act s = .error fault t ∧ post fault t

instance {act : Action σ α} {post : Fault → σ → Prop} [∀ fault t, Decidable (post fault t)] :
    Decidable (act.Fails s post) :=
  match run : act s with
  | .ok _ _ => isFalse fun ⟨_, _, run', _⟩ => nomatch run.symm.trans run'
  | .error fault t =>
      decidable_of_iff (post fault t) ⟨fun holds => ⟨fault, t, run, holds⟩, fun ⟨_, _, run', holds⟩ => by
        cases run.symm.trans run'
        exact holds⟩

theorem Fails.after {act : Action σ α} {post : Fault → σ → Prop} (fails : act.Fails s post) :
    ∃ fault, post fault (act.after s) := by
  obtain ⟨fault, t, run, holds⟩ := fails
  exact ⟨fault, by simpa [Action.after, run] using holds⟩

@[simp]
theorem fails_throw {fault : Fault} {post : Fault → σ → Prop} :
    (throw fault : Action σ α).Fails s post ↔ post fault s := by
  constructor
  · rintro ⟨_, _, run, holds⟩
    cases run
    exact holds
  · exact fun holds => ⟨fault, s, rfl, holds⟩

@[simp]
theorem fails_pure {a : α} {post : Fault → σ → Prop} : ¬ (pure a : Action σ α).Fails s post := by
  rintro ⟨_, _, run, _⟩
  cases run

@[simp]
theorem fails_require {condition : Bool} {fault : Fault} {post : Fault → σ → Prop} :
    (require condition fault : Action σ Unit).Fails s post ↔ condition = false ∧ post fault s := by
  cases condition <;> simp [require]

/-- A fault is met by the first action, or by the next where the first has returned. -/
theorem fails_bind {act : Action σ α} {next : α → Action σ β} {post : Fault → σ → Prop} :
    (act >>= next).Fails s post ↔
      act.Fails s post ∨ act.Returns s fun a t => (next a).Fails t post := by
  constructor
  · rintro ⟨fault, u, run, holds⟩
    simp only [bind, EStateM.bind] at run
    split at run
    · exact Or.inr ⟨_, _, ‹_›, fault, u, run, holds⟩
    · cases run
      exact Or.inl ⟨_, _, ‹_›, holds⟩
  · rintro (⟨fault, t, first, holds⟩ | ⟨a, t, first, fault, u, second, holds⟩)
    · exact ⟨fault, t, by simp [bind, EStateM.bind, first], holds⟩
    · exact ⟨fault, u, by simp [bind, EStateM.bind, first, second], holds⟩

@[simp]
theorem fails_ofExcept {result : Except Fault α} {post : Fault → σ → Prop} :
    (ofExcept result : Action σ α).Fails s post ↔ ∃ fault, result = .error fault ∧ post fault s := by
  cases result with
  | error fault => simp [ofExcept]
  | ok a =>
      simp only [ofExcept, reduceCtorEq, false_and, exists_false, iff_false]
      rintro ⟨_, _, run, _⟩
      cases run

@[simp]
theorem fails_within {part : σ → τ} {put : σ → τ → σ} {act : Action τ α}
    {post : Fault → σ → Prop} :
    (within part put act).Fails s post ↔
      act.Fails (part s) fun fault t => post fault (put s t) := by
  constructor
  · rintro ⟨fault, t, run, holds⟩
    unfold within at run
    split at run
    · cases run
    · cases run
      exact ⟨_, _, ‹_›, holds⟩
  · rintro ⟨fault, t, run, holds⟩
    exact ⟨fault, put s t, by simp [within, run], holds⟩

theorem returns_when {condition : Prop} [Decidable condition] {act : Action σ PUnit}
    {next : Action σ β} {post : β → σ → Prop} :
    (if condition then act >>= fun _ => next else next).Returns s post ↔
      (if condition then act else pure ⟨⟩).Returns s fun _ t => next.Returns t post := by
  split <;> simp

theorem returns_ite_bind {condition : Prop} [Decidable condition] {act act' : Action σ α}
    {next : α → Action σ β} {post : β → σ → Prop} :
    (if condition then act >>= next else act' >>= next).Returns s post ↔
      (if condition then act else act').Returns s fun a t => (next a).Returns t post := by
  split <;> exact returns_bind

/-- A loop over the first numbers keeps what each of its rounds keeps. -/
theorem returns_foldlM_range {step : β → Nat → Action σ β} {b : β} (inv : Nat → β → σ → Prop)
    (start : inv 0 b s) : ∀ {n : Nat},
    (∀ k b s, k < n → inv k b s → (step b k).Returns s (inv (k + 1))) →
      ((List.range n).foldlM step b).Returns s (inv n)
  | 0, _ => by simpa using start
  | n + 1, round => by
      rw [List.range_succ, List.foldlM_append, returns_bind]
      have rounds := returns_foldlM_range inv start (n := n) fun k b s before =>
        round k b s (Nat.lt_succ_of_lt before)
      refine rounds.weaken fun b s holds => ?_
      simpa using round n b s (Nat.lt_succ_self n) holds

end PagedServing.Action
