import PagedServing.Proofs.Ensures

/-! # What comes of actions

An action that meets a fault has done something before it. It yields what holds of the value and of
the state if it returns, and of the fault and of the state if it does not. What holds in either
case is preserved.
-/

namespace PagedServing.Action

variable {σ τ α β : Type} {s : σ}

/-- If the action returns from `s`, `post` holds of its value and of the state that it leaves;
    otherwise `escape` holds of the fault and of the state in which it is met. -/
def Yields (act : Action σ α) (s : σ) (post : α → σ → Prop) (escape : Fault → σ → Prop) : Prop :=
  match act s with
  | .ok a t => post a t
  | .error fault t => escape fault t

/-- Nothing follows an action that has met a fault. -/
theorem bind_of_error {act : Action σ α} {next : α → Action σ β} {fault : Fault} {t : σ}
    (failed : act s = .error fault t) : (act >>= next) s = .error fault t := by
  simp [bind, EStateM.bind, failed]

section Yields

variable {act : Action σ α} {post post' : α → σ → Prop} {escape escape' : Fault → σ → Prop}

theorem Yields.weaken (yields : act.Yields s post escape) (weaker : ∀ a t, post a t → post' a t)
    (escapes : ∀ fault t, escape fault t → escape' fault t) : act.Yields s post' escape' := by
  unfold Yields at *
  split <;> simp_all

theorem Yields.and (first : act.Yields s post escape) (second : act.Yields s post' escape') :
    act.Yields s (fun a t => post a t ∧ post' a t) fun fault t => escape fault t ∧ escape' fault t := by
  unfold Yields at *
  split <;> simp_all

theorem Yields.of_ok {a : α} {t : σ} (yields : act.Yields s post escape) (run : act s = .ok a t) :
    post a t := by
  simpa [Yields, run] using yields

theorem Yields.of_error {fault : Fault} {t : σ} (yields : act.Yields s post escape)
    (run : act s = .error fault t) : escape fault t := by
  simpa [Yields, run] using yields

theorem Returns.yields (returns : act.Returns s post) : act.Yields s post escape := by
  obtain ⟨a, t, run, holds⟩ := returns
  simpa [Yields, run] using holds

/-- An action that meets no fault returns. -/
theorem Yields.returns (yields : act.Yields s post fun _ _ => False) : act.Returns s post := by
  unfold Yields at yields
  cases run : act s with
  | ok a t =>
      rw [run] at yields
      exact ⟨a, t, run, yields⟩
  | error fault t =>
      rw [run] at yields
      exact yields.elim

theorem Yields.after {p : σ → Prop} (yields : act.Yields s (fun _ => p) fun _ => p) :
    p (act.after s) := by
  unfold Yields at yields
  unfold Action.after
  split at yields <;> simp_all

@[simp]
theorem yields_pure {a : α} : (pure a : Action σ α).Yields s post escape ↔ post a s :=
  Iff.rfl

@[simp]
theorem yields_get {post : σ → σ → Prop} : (get : Action σ σ).Yields s post escape ↔ post s s :=
  Iff.rfl

@[simp]
theorem yields_set {t : σ} {post : PUnit → σ → Prop} :
    (set t : Action σ PUnit).Yields s post escape ↔ post ⟨⟩ t :=
  Iff.rfl

@[simp]
theorem yields_modify {f : σ → σ} {post : PUnit → σ → Prop} :
    (modify f : Action σ PUnit).Yields s post escape ↔ post ⟨⟩ (f s) :=
  Iff.rfl

@[simp]
theorem yields_throw {fault : Fault} :
    (throw fault : Action σ α).Yields s post escape ↔ escape fault s :=
  Iff.rfl

@[simp]
theorem yields_bind {next : α → Action σ β} {post : β → σ → Prop} :
    (act >>= next).Yields s post escape ↔
      act.Yields s (fun a t => (next a).Yields t post escape) escape := by
  simp only [Yields, bind, EStateM.bind]
  cases act s <;> rfl

@[simp]
theorem yields_map {f : α → β} {post : β → σ → Prop} :
    (f <$> act).Yields s post escape ↔ act.Yields s (fun a t => post (f a) t) escape := by
  rw [map_eq_pure_bind, yields_bind]
  rfl

@[simp]
theorem yields_tryCatch {handler : Fault → Action σ α} :
    (tryCatch act handler).Yields s post escape ↔
      act.Yields s post fun fault t => (handler fault).Yields t post escape := by
  simp only [Yields, tryCatch, tryCatchThe, MonadExceptOf.tryCatch]
  delta EStateM.tryCatch
  cases act s <;> rfl

@[simp]
theorem yields_require {condition : Bool} {fault : Fault} {post : Unit → σ → Prop} :
    (require condition fault : Action σ Unit).Yields s post escape ↔
      (condition = true → post () s) ∧ (condition = false → escape fault s) := by
  cases condition <;> simp [require]

@[simp]
theorem yields_demand {value : Option α} {fault : Fault} :
    (demand value fault : Action σ α).Yields s post escape ↔
      (∀ a, value = some a → post a s) ∧ (value = none → escape fault s) := by
  cases value <;> simp [demand]

@[simp]
theorem yields_ofExcept {result : Except Fault α} :
    (ofExcept result : Action σ α).Yields s post escape ↔
      (∀ a, result = .ok a → post a s) ∧ ∀ fault, result = .error fault → escape fault s := by
  cases result <;> simp [ofExcept]

@[simp]
theorem yields_within {part : τ → σ} {put : τ → σ → τ} {t : τ} {post : α → τ → Prop}
    {escape : Fault → τ → Prop} :
    (within part put act).Yields t post escape ↔
      act.Yields (part t) (fun a s => post a (put t s)) fun fault s => escape fault (put t s) := by
  simp only [Yields, within]
  cases act (part t) <;> rfl

/-- A choice may come before what follows. -/
theorem yields_ite_bind {condition : Prop} [Decidable condition] {act act' : Action σ α}
    {next : α → Action σ β} {post : β → σ → Prop} :
    (if condition then act >>= next else act' >>= next).Yields s post escape ↔
      (if condition then act else act').Yields s (fun a t => (next a).Yields t post escape) escape := by
  split <;> exact yields_bind

/-- A loop yields what each of its rounds leaves. -/
theorem yields_foldlM {step : β → α → Action σ β} {inv : σ → Prop} {escape : Fault → σ → Prop}
    (round : ∀ b a s, inv s → (step b a).Yields s (fun _ => inv) escape) (xs : List α) (b : β)
    (holds : inv s) : (xs.foldlM step b).Yields s (fun _ => inv) escape := by
  induction xs generalizing b s with
  | nil => exact holds
  | cons x xs ih =>
      rw [List.foldlM_cons, yields_bind]
      exact (round b x s holds).weaken (fun b t => ih b) fun _ _ => id

/-- A loop over the first numbers yields what each of its rounds leaves. -/
theorem yields_foldlM_range {step : β → Nat → Action σ β} {b : β} {escape : Fault → σ → Prop}
    (inv : Nat → β → σ → Prop) (start : inv 0 b s) : ∀ {n : Nat},
    (∀ k b s, k < n → inv k b s → (step b k).Yields s (inv (k + 1)) escape) →
      ((List.range n).foldlM step b).Yields s (inv n) escape
  | 0, _ => by simpa using start
  | n + 1, round => by
      rw [List.range_succ, List.foldlM_append, yields_bind]
      have rounds := yields_foldlM_range inv start (n := n) fun k b s before =>
        round k b s (Nat.lt_succ_of_lt before)
      refine rounds.weaken (fun b s holds => ?_) fun _ _ => id
      simpa using round n b s (Nat.lt_succ_self n) holds

end Yields

/-- What held before the action holds after it, also after a fault. -/
def Preserves (inv : σ → Prop) (act : Action σ α) : Prop :=
  ∀ s, inv s → act.Yields s (fun _ => inv) fun _ => inv

namespace Preserves

variable {inv : σ → Prop} {act act' : Action σ α}

theorem after (preserves : act.Preserves inv) (holds : inv s) : inv (act.after s) :=
  (preserves s holds).after

theorem pure (a : α) : (pure a : Action σ α).Preserves inv :=
  fun _ holds => holds

theorem get : (get : Action σ σ).Preserves inv :=
  fun _ holds => holds

theorem throw (fault : Fault) : (throw fault : Action σ α).Preserves inv :=
  fun _ holds => holds

theorem require (condition : Bool) (fault : Fault) : (require condition fault).Preserves inv :=
  fun _ holds => yields_require.mpr ⟨fun _ => holds, fun _ => holds⟩

theorem demand (value : Option α) (fault : Fault) : (demand value fault).Preserves inv :=
  fun _ holds => yields_demand.mpr ⟨fun _ _ => holds, fun _ => holds⟩

theorem ofExcept (result : Except Fault α) : (ofExcept result).Preserves inv :=
  fun _ holds => yields_ofExcept.mpr ⟨fun _ _ => holds, fun _ _ => holds⟩

theorem modify {f : σ → σ} (kept : ∀ s, inv s → inv (f s)) :
    (modify f : Action σ PUnit).Preserves inv :=
  kept

theorem bind {next : α → Action σ β} (first : act.Preserves inv)
    (rest : ∀ a, (next a).Preserves inv) : (act >>= next).Preserves inv :=
  fun s holds => yields_bind.mpr ((first s holds).weaken (fun a t => rest a t) fun _ _ => id)

theorem get_bind {next : σ → Action σ α}
    (rest : ∀ s, inv s → (next s).Yields s (fun _ => inv) fun _ => inv) :
    (MonadState.get >>= next).Preserves inv :=
  fun s holds => yields_bind.mpr (rest s holds)

theorem map {f : α → β} (preserves : act.Preserves inv) : (f <$> act).Preserves inv := by
  rw [map_eq_pure_bind]
  exact preserves.bind fun a => .pure _

theorem tryCatch {handler : Fault → Action σ α} (first : act.Preserves inv)
    (handled : ∀ fault, (handler fault).Preserves inv) :
    (MonadExcept.tryCatch act handler).Preserves inv :=
  fun s holds => yields_tryCatch.mpr ((first s holds).weaken (fun _ _ => id) handled)

theorem ite {condition : Prop} [Decidable condition] (first : act.Preserves inv)
    (second : act'.Preserves inv) : (if condition then act else act').Preserves inv := by
  split
  · exact first
  · exact second

theorem within {part : τ → σ} {put : τ → σ → τ} {outer : τ → Prop}
    (preserves : act.Preserves inv) (enters : ∀ t, outer t → inv (part t))
    (leaves : ∀ t s, outer t → inv s → outer (put t s)) :
    (Action.within part put act).Preserves outer :=
  fun t holds => yields_within.mpr <| (preserves (part t) (enters t holds)).weaken
    (fun _ s => leaves t s holds) fun _ s => leaves t s holds

theorem elsewhere {part : τ → σ} {put : τ → σ → τ} {outer : τ → Prop}
    (harmless : ∀ t s, outer t → outer (put t s)) : (Action.within part put act).Preserves outer := by
  intro t holds
  simp only [Yields, Action.within]
  cases act (part t) <;> exact harmless _ _ holds

theorem foldlM {step : β → α → Action σ β} (each : ∀ b a, (step b a).Preserves inv) (xs : List α) :
    ∀ b : β, (xs.foldlM step b).Preserves inv := by
  induction xs with
  | nil => exact fun b => .pure b
  | cons x xs ih => exact fun b => (each b x).bind ih

theorem forM {step : α → Action σ PUnit} (each : ∀ a, (step a).Preserves inv) (xs : List α) :
    (xs.forM step).Preserves inv := by
  induction xs with
  | nil => exact .pure PUnit.unit
  | cons x xs ih => exact (each x).bind fun _ => ih

end Preserves

end PagedServing.Action
