import PagedServing.Proofs.Yields

/-! # Two runs side by side

Two states may differ in something that an action never looks at. Then it does the same in both: it
ends with the same value or with the same fault, and what it leaves differs in nothing else.
-/

namespace PagedServing.Action

variable {σ τ α β : Type} {s t : σ}

/-- What an action hands back: its value, or the fault that it meets. -/
def answer (act : Action σ α) (s : σ) : Except Fault α :=
  match act s with
  | .ok a _ => .ok a
  | .error fault _ => .error fault

/-- Two actions end with the same answer, in states that are related. -/
def Alike (r : σ → σ → Prop) (act act' : Action σ α) (s t : σ) : Prop :=
  match act s, act' t with
  | .ok a s', .ok a' t' => a = a' ∧ r s' t'
  | .error fault s', .error fault' t' => fault = fault' ∧ r s' t'
  | _, _ => False

/-- In states that are related, an action ends with the same answer, and the states that it leaves
    are related again. -/
def Tracks (r : σ → σ → Prop) (act : Action σ α) : Prop :=
  ∀ s t, r s t → Alike r act act s t

section Alike

variable {r : σ → σ → Prop} {act act' : Action σ α}

theorem Alike.answer (alike : Alike r act act' s t) : act.answer s = act'.answer t := by
  unfold Alike at alike
  unfold Action.answer
  split at alike <;> simp_all

theorem Alike.after (alike : Alike r act act' s t) : r (act.after s) (act'.after t) := by
  unfold Alike at alike
  unfold Action.after
  split at alike <;> simp_all

@[simp]
theorem alike_pure {a : α} : Alike r (pure a) (pure a) s t ↔ r s t := by
  simp [Alike, pure, EStateM.pure]

@[simp]
theorem alike_set {s' t' : σ} : Alike r (set s') (set t') s t ↔ r s' t' :=
  ⟨And.right, fun related => ⟨rfl, related⟩⟩

@[simp]
theorem alike_modify {f f' : σ → σ} :
    Alike r (modify f : Action σ PUnit) (modify f') s t ↔ r (f s) (f' t) :=
  ⟨And.right, fun related => ⟨rfl, related⟩⟩

/-- A state may be read before something is done. -/
theorem alike_get_bind {next next' : σ → Action σ α} :
    Alike r (get >>= next) (get >>= next') s t ↔ Alike r (next s) (next' t) s t :=
  Iff.rfl

theorem Alike.bind {next next' : α → Action σ β} (first : Alike r act act' s t)
    (rest : ∀ a s' t', r s' t' → Alike r (next a) (next' a) s' t') :
    Alike r (act >>= next) (act' >>= next') s t := by
  unfold Alike at first
  split at first
  · rename_i run run'
    obtain ⟨rfl, related⟩ := first
    simpa [Alike, Bind.bind, EStateM.bind, run, run'] using rest _ _ _ related
  · rename_i run run'
    simpa [Alike, Bind.bind, EStateM.bind, run, run'] using first
  · exact first.elim

end Alike

namespace Tracks

variable {r : σ → σ → Prop} {act act' : Action σ α}

theorem answer (tracks : act.Tracks r) (related : r s t) : act.answer s = act.answer t :=
  (tracks s t related).answer

theorem after (tracks : act.Tracks r) (related : r s t) : r (act.after s) (act.after t) :=
  (tracks s t related).after

theorem preserves (tracks : act.Tracks r) : act.Preserves fun s => r s s := by
  intro s related
  have alike := tracks s s related
  unfold Alike at alike
  unfold Yields
  split at alike
  · rename_i run run'
    cases run.symm.trans run'
    simpa [run] using alike.2
  · rename_i run run'
    cases run.symm.trans run'
    simpa [run] using alike.2
  · exact alike.elim

theorem pure (a : α) : (pure a : Action σ α).Tracks r :=
  fun _ _ related => alike_pure.mpr related

theorem throw (fault : Fault) : (throw fault : Action σ α).Tracks r := by
  intro s t related
  exact ⟨rfl, related⟩

theorem modify {f : σ → σ} (kept : ∀ s t, r s t → r (f s) (f t)) :
    (modify f : Action σ PUnit).Tracks r :=
  fun s t related => alike_modify.mpr (kept s t related)

theorem require (condition : Bool) (fault : Fault) : (require condition fault).Tracks r := by
  cases condition
  · exact .throw fault
  · exact .pure ()

theorem demand (value : Option α) (fault : Fault) : (demand value fault).Tracks r := by
  cases value
  · exact .throw fault
  · exact .pure _

theorem ofExcept (result : Except Fault α) : (ofExcept result).Tracks r := by
  cases result
  · exact .throw _
  · exact .pure _

theorem bind {next : α → Action σ β} (first : act.Tracks r) (rest : ∀ a, (next a).Tracks r) :
    (act >>= next).Tracks r :=
  fun s t related => (first s t related).bind fun a => rest a

theorem get_bind {next : σ → Action σ α} (same : ∀ s t, r s t → next t = next s)
    (rest : ∀ s, (next s).Tracks r) : (MonadState.get >>= next).Tracks r := by
  intro s t related
  rw [alike_get_bind, same s t related]
  exact rest s s t related

/-- A state may be left alone or changed, after a look at it. -/
theorem get_ite_set {condition : σ → Prop} [∀ s, Decidable (condition s)] {done : Action σ α} {f : σ → σ}
    {next : PUnit → Action σ α} (same : ∀ s t, r s t → (condition s ↔ condition t))
    (stays : done.Tracks r) (kept : ∀ s t, r s t → r (f s) (f t)) (goes : (next ⟨⟩).Tracks r) :
    (MonadState.get >>= fun s => if condition s then done else MonadState.set (f s) >>= next).Tracks r := by
  intro s t related
  rw [alike_get_bind]
  by_cases holds : condition s
  · rw [if_pos holds, if_pos ((same s t related).mp holds)]
    exact stays s t related
  · rw [if_neg holds, if_neg (mt (same s t related).mpr holds)]
    exact (alike_set.mpr (kept s t related)).bind fun _ => goes

theorem map {f : α → β} (tracks : act.Tracks r) : (f <$> act).Tracks r := by
  rw [map_eq_pure_bind]
  exact tracks.bind fun a => .pure _

theorem ite {condition : Prop} [Decidable condition] (first : act.Tracks r) (second : act'.Tracks r) :
    (if condition then act else act').Tracks r := by
  split
  · exact first
  · exact second

theorem foldlM {step : β → α → Action σ β} (each : ∀ b a, (step b a).Tracks r) (xs : List α) :
    ∀ b : β, (xs.foldlM step b).Tracks r := by
  induction xs with
  | nil => exact fun b => .pure b
  | cons x xs ih => exact fun b => (each b x).bind ih

theorem within {part : σ → τ} {put : σ → τ → σ} {act : Action τ α} (same : ∀ s t, r s t → part t = part s)
    (kept : ∀ s t p, r s t → r (put s p) (put t p)) : (Action.within part put act).Tracks r := by
  intro s t related
  unfold Alike Action.within
  rw [same s t related]
  cases act (part s) <;> exact ⟨rfl, kept s t _ related⟩

/-- Parts that are related are acted on. -/
theorem inside {part : σ → τ} {put : σ → τ → σ} {act : Action τ α}
    (enters : ∀ s t, r s t → ∃ r' : τ → τ → Prop, act.Tracks r' ∧ r' (part s) (part t) ∧
      ∀ p q, r' p q → r (put s p) (put t q)) : (Action.within part put act).Tracks r := by
  intro s t related
  obtain ⟨r', tracks, parts, leaves⟩ := enters s t related
  have alike := tracks _ _ parts
  unfold Alike at *
  unfold Action.within
  split at alike
  · rename_i run run'
    simpa [run, run'] using ⟨alike.1, leaves _ _ alike.2⟩
  · rename_i run run'
    simpa [run, run'] using ⟨alike.1, leaves _ _ alike.2⟩
  · exact alike.elim

end Tracks

end PagedServing.Action
