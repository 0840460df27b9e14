import PagedServing.Engine.Intake
import PagedServing.Proofs.Returns

/-! # Accepting requests

A sequence is accepted unless the engine takes no more, or its name is in flight, or its prompt is
too long. What is refused leaves no trace but in the journal.
-/

namespace PagedServing.Engine

variable {ω : Type} {e : Engine ω} {id : SeqId}

/-- Whether a sequence may be accepted. -/
structure Acceptable (e : Engine ω) (id : SeqId) : Prop where
  accepting : e.accepting = true
  free : (e.scheduler.sequence id).requestId ∉ e.live
  short : (e.scheduler.sequence id).prompt.length < e.scheduler.config.maxLength

theorem accept_returns (acceptable : e.Acceptable id) : (accept id).Returns e fun requestId e' =>
    requestId = (e.scheduler.sequence id).requestId ∧
      e' = { e with live := e.live ++ [requestId], commands := e.commands ++ [.add id] } := by
  obtain ⟨accepting, free, short⟩ := acceptable
  have fits : e.scheduler.checkCapacity (e.scheduler.sequence id) = .ok () :=
    if_neg (Nat.not_le.mpr short)
  simp [accept, checkCapacity, post, accepting, free, fits]

theorem accept_fails (refused : ¬ e.Acceptable id) : (accept id).Fails e fun _ e' => ∃ journal,
    e' = { e with scheduler := { e.scheduler with cache := { e.scheduler.cache with journal } } } := by
  simp only [accept, Action.fails_bind, Action.returns_get, Action.fails_require,
    Action.returns_require]
  refine Or.inr ?_
  by_cases accepting : e.accepting = true
  · refine Or.inr ⟨accepting, ?_⟩
    by_cases taken : (e.scheduler.sequence id).requestId ∈ e.live
    · exact Or.inl ⟨by simp [taken], e.scheduler.cache.journal, rfl⟩
    · refine Or.inr ⟨by simp [taken], Or.inl ?_⟩
      have long : e.scheduler.config.maxLength ≤ (e.scheduler.sequence id).prompt.length :=
        Nat.le_of_not_lt fun short => refused ⟨accepting, taken, short⟩
      simp only [checkCapacity, Action.fails_bind, Action.returns_get, Scheduler.checkCapacity,
        if_pos long]
      refine Or.inr (Or.inr ?_)
      simp only [report, onScheduler, Scheduler.onCache, Cache.report, Action.returns_within,
        Action.returns_modify, Action.fails_throw]
      exact ⟨_, rfl⟩
  · exact Or.inl ⟨by simpa using accepting, e.scheduler.cache.journal, rfl⟩

end PagedServing.Engine
