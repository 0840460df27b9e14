import PagedServing.Proofs.Returns

/-! # What actions ensure and keep

An action ensures what holds whenever it returns; nothing is said about faults. It keeps a
view of the state if the view is the same whenever it returns. Where an action is already
known to return, the two say what it leaves without looking again at why it returns.
-/

namespace PagedServing.Action

variable {σ τ ν ν' α β : Type} {s : σ}

/-- If the action returns from `s`, `post` holds of its value and of the state that it leaves. -/
def Ensures (act : Action σ α) (s : σ) (post : α → σ → Prop) : Prop :=
  ∀ a t, act s = .ok a t → post a t

theorem Returns.ensures {act : Action σ α} {post : α → σ → Prop} (returns : act.Returns s post) :
    act.Ensures s post :=
  fun _ _ run => returns.of_run run

/-- What an action ensures holds besides what it is known to return with. -/
theorem Returns.also {act : Action σ α} {post post' : α → σ → Prop} (returns : act.Returns s post)
    (ensures : act.Ensures s post') : act.Returns s fun a t => post a t ∧ post' a t :=
  returns.run.weaken fun a t ⟨run, holds⟩ => ⟨holds, ensures a t run⟩

theorem Ensures.weaken {act : Action σ α} {post post' : α → σ → Prop} (ensures : act.Ensures s post)
    (weaker : ∀ a t, post a t → post' a t) : act.Ensures s post' :=
  fun a t run => weaker a t (ensures a t run)

theorem Ensures.and {act : Action σ α} {post post' : α → σ → Prop} (first : act.Ensures s post)
    (second : act.Ensures s post') : act.Ensures s fun a t => post a t ∧ post' a t :=
  fun a t run => ⟨first a t run, second a t run⟩

@[simp]
theorem ensures_pure {a : α} {post : α → σ → Prop} :
    (pure a : Action σ α).Ensures s post ↔ post a s := by
  constructor
  · exact fun ensures => ensures a s rfl
  · intro holds _ _ run
    cases run
    exact holds

@[simp]
theorem ensures_bind {act : Action σ α} {next : α → Action σ β} {post : β → σ → Prop} :
    (act >>= next).Ensures s post ↔ act.Ensures s fun a t => (next a).Ensures t post := by
  constructor
  · intro ensures a t first b u second
    exact ensures b u (by simp [bind, EStateM.bind, first, second])
  · intro ensures b u run
    simp only [bind, EStateM.bind] at run
    split at run
    · exact ensures _ _ ‹_› b u run
    · cases run

@[simp]
theorem ensures_map {act : Action σ α} {f : α → β} {post : β → σ → Prop} :
    (f <$> act).Ensures s post ↔ act.Ensures s fun a t => post (f a) t := by
  rw [map_eq_pure_bind, ensures_bind]
  simp only [ensures_pure]

@[simp]
theorem ensures_get {post : σ → σ → Prop} : (get : Action σ σ).Ensures s post ↔ post s s :=
  ensures_pure

@[simp]
theorem ensures_modifyGet {f : σ → α × σ} {post : α → σ → Prop} :
    (modifyGet f : Action σ α).Ensures s post ↔ post (f s).1 (f s).2 := by
  constructor
  · exact fun ensures => ensures _ _ rfl
  · intro holds _ _ run
    cases run
    exact holds

@[simp]
theorem ensures_modify {f : σ → σ} {post : PUnit → σ → Prop} :
    (modify f : Action σ PUnit).Ensures s post ↔ post ⟨⟩ (f s) :=
  ensures_modifyGet

@[simp]
theorem ensures_set {t : σ} {post : PUnit → σ → Prop} :
    (set t : Action σ PUnit).Ensures s post ↔ post ⟨⟩ t := by
  constructor
  · exact fun ensures => ensures _ _ rfl
  · intro holds _ _ run
    cases run
    exact holds

@[simp]
theorem ensures_throw {fault : Fault} {post : α → σ → Prop} :
    (throw fault : Action σ α).Ensures s post :=
  fun _ _ run => nomatch run

@[simp]
theorem ensures_require {condition : Bool} {fault : Fault} {post : Unit → σ → Prop} :
    (require condition fault : Action σ Unit).Ensures s post ↔ (condition = true → post () s) := by
  cases condition <;> simp [require]

@[simp]
theorem ensures_demand {value : Option α} {fault : Fault} {post : α → σ → Prop} :
    (demand value fault : Action σ α).Ensures s post ↔ ∀ a, value = some a → post a s := by
  cases value <;> simp [demand]

@[simp]
theorem ensures_ofExcept {result : Except Fault α} {post : α → σ → Prop} :
    (ofExcept result : Action σ α).Ensures s post ↔ ∀ a, result = .ok a → post a s := by
  cases result <;> simp [ofExcept]

@[simp]
theorem ensures_within {part : σ → τ} {put : σ → τ → σ} {act : Action τ α}
    {post : α → σ → Prop} :
    (within part put act).Ensures s post ↔
      act.Ensures (part s) fun a t => post a (put s t) := by
  constructor
  · intro ensures a t run
    exact ensures a (put s t) (by simp [within, run])
  · intro ensures a t run
    unfold within at run
    split at run
    · cases run
      exact ensures _ _ ‹_›
    · cases run

/-- Something is done first, under a condition. -/
theorem ensures_when {condition : Prop} [Decidable condition] {act : Action σ PUnit}
    {next : Action σ β} {post : β → σ → Prop} :
    (if condition then act >>= fun _ => next else next).Ensures s post ↔
      (if condition then act else pure ⟨⟩).Ensures s fun _ t => next.Ensures t post := by
  split <;> simp

/-- The action leaves a view of the state as it is. -/
def Keeps (view : σ → ν) (act : Action σ α) : Prop :=
  ∀ s, act.Ensures s fun _ t => view t = view s

namespace Keeps

variable {view : σ → ν}

/-- After an action that keeps the view it is as if nothing had happened. -/
theorem bind_ensures {act : Action σ α} (keeps : act.Keeps view) {next : α → Action σ β}
    {post : β → σ → Prop} (rest : ∀ a t, view t = view s → (next a).Ensures t post) :
    (act >>= next).Ensures s post :=
  ensures_bind.mpr fun a t run => rest a t (keeps s a t run)

theorem pure (a : α) : (pure a : Action σ α).Keeps view :=
  fun _ => ensures_pure.mpr rfl

theorem get : (get : Action σ σ).Keeps view :=
  fun _ => ensures_get.mpr rfl

theorem require (condition : Bool) (fault : Fault) : (require condition fault).Keeps view :=
  fun _ => ensures_require.mpr fun _ => rfl

theorem demand (value : Option α) (fault : Fault) : (demand value fault).Keeps view :=
  fun _ => ensures_demand.mpr fun _ _ => rfl

theorem ofExcept (result : Except Fault α) : (ofExcept result).Keeps view :=
  fun _ => ensures_ofExcept.mpr fun _ _ => rfl

theorem modify {f : σ → σ} (same : ∀ s, view (f s) = view s) :
    (modify f : Action σ PUnit).Keeps view :=
  fun s => ensures_modify.mpr (same s)

/-- A state may be read and then be replaced by one with the same view. -/
theorem get_bind {next : σ → Action σ α}
    (rest : ∀ s, (next s).Ensures s fun _ t => view t = view s) : (MonadState.get >>= next).Keeps view :=
  fun s => ensures_bind.mpr (ensures_get.mpr (rest s))

theorem bind {act : Action σ α} {next : α → Action σ β} (first : act.Keeps view)
    (rest : ∀ a, (next a).Keeps view) : (act >>= next).Keeps view :=
  fun _ => first.bind_ensures fun a t same => (rest a t).weaken fun _ _ same' => same'.trans same

theorem map {act : Action σ α} {f : α → β} (keeps : act.Keeps view) : (f <$> act).Keeps view := by
  rw [map_eq_pure_bind]
  exact keeps.bind fun a => .pure _

theorem ite {condition : Prop} [Decidable condition] {act act' : Action σ α}
    (first : act.Keeps view) (second : act'.Keeps view) :
    (if condition then act else act').Keeps view := by
  split
  · exact first
  · exact second

theorem within {part : σ → τ} {put : σ → τ → σ} {inner : τ → ν'} {act : Action τ α}
    (keeps : act.Keeps inner)
    (lifts : ∀ s t, inner t = inner (part s) → view (put s t) = view s) :
    (within part put act).Keeps view :=
  fun s => ensures_within.mpr ((keeps (part s)).weaken fun _ t same => lifts s t same)

theorem elsewhere {part : σ → τ} {put : σ → τ → σ} {act : Action τ α}
    (unseen : ∀ s t, view (put s t) = view s) : (Action.within part put act).Keeps view :=
  fun s => ensures_within.mpr fun _ t _ => unseen s t

theorem foldlM {step : β → α → Action σ β} (each : ∀ b a, (step b a).Keeps view) (xs : List α) :
    ∀ b : β, (xs.foldlM step b).Keeps view := by
  induction xs with
  | nil => exact fun b => .pure b
  | cons x xs ih => exact fun b => (each b x).bind ih

end Keeps

end PagedServing.Action
