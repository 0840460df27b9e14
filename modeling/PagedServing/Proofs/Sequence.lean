import Mathlib.Algebra.Order.Ring.Rat
import PagedServing.Sequence.Basic

/-! # Origins and priority

What is settled when a sequence is constructed stays as it is, and with it the place of the
sequence in every queue. Precedence is a strict order in which two sequences of different
numbers can always be compared.
-/

namespace PagedServing

/-- What is settled when a sequence is constructed. -/
structure Origin where
  id : Nat
  requestId : String
  blockSize : Nat
  prompt : List Int
  arrival : Rat
  sampling : Sampling

namespace Sequence

variable {p p' q q' r : Sequence}

/-- What was settled when the sequence was constructed. -/
def origin (q : Sequence) : Origin :=
  ⟨q.id, q.requestId, q.blockSize, q.prompt, q.arrival, q.sampling⟩

/-- The origin of a sequence, and what was generated since. -/
def account (q : Sequence) : Origin × List Int :=
  (q.origin, q.completion)

theorem origin_of_account (same : q'.account = q.account) : q'.origin = q.origin :=
  congrArg Prod.fst same

theorem completion_of_account (same : q'.account = q.account) : q'.completion = q.completion :=
  congrArg Prod.snd same

theorem sampling_of_account (same : q'.account = q.account) : q'.sampling = q.sampling :=
  congrArg Origin.sampling (origin_of_account same)

theorem tokens_of_account (same : q'.account = q.account) : q'.tokens = q.tokens := by
  have prompt : q'.prompt = q.prompt := congrArg Origin.prompt (origin_of_account same)
  rw [tokens, tokens, prompt, completion_of_account same]

theorem length_of_account (same : q'.account = q.account) : q'.length = q.length := by
  rw [← length_tokens, tokens_of_account same, length_tokens]

theorem precedes_iff :
    p.precedes q = true ↔ p.arrival < q.arrival ∨ p.arrival = q.arrival ∧ p.id < q.id := by
  simp [precedes]

/-- Priority is settled when a sequence is constructed. -/
theorem precedes_congr (left : p'.origin = p.origin) (right : q'.origin = q.origin) :
    p'.precedes q' = p.precedes q := by
  have arrival : p'.arrival = p.arrival := congrArg Origin.arrival left
  have arrival' : q'.arrival = q.arrival := congrArg Origin.arrival right
  have number : p'.id = p.id := congrArg Origin.id left
  have number' : q'.id = q.id := congrArg Origin.id right
  rw [precedes, precedes, arrival, arrival', number, number']

theorem precedes_trans (first : p.precedes q = true) (second : q.precedes r = true) :
    p.precedes r = true := by
  rw [precedes_iff] at first second ⊢
  rcases first with earlier | ⟨same, less⟩
  · rcases second with earlier' | ⟨same', _⟩
    · exact Or.inl (earlier.trans earlier')
    · exact Or.inl (same' ▸ earlier)
  · rcases second with earlier' | ⟨same', less'⟩
    · exact Or.inl (same ▸ earlier')
    · exact Or.inr ⟨same.trans same', less.trans less'⟩

theorem precedes_asymm (before : p.precedes q = true) : q.precedes p = false := by
  rw [precedes_iff] at before
  rw [← Bool.not_eq_true, precedes_iff]
  rintro (earlier | ⟨same, less⟩)
  · rcases before with earlier' | ⟨same, _⟩
    · exact lt_asymm earlier earlier'
    · exact lt_irrefl _ (same ▸ earlier)
  · rcases before with earlier' | ⟨_, less'⟩
    · exact lt_irrefl _ (same ▸ earlier')
    · exact Nat.lt_asymm less less'

theorem precedes_total (different : p.id ≠ q.id) :
    p.precedes q = true ∨ q.precedes p = true := by
  rw [precedes_iff, precedes_iff]
  rcases lt_trichotomy p.arrival q.arrival with earlier | same | later
  · exact Or.inl (Or.inl earlier)
  · rcases Nat.lt_or_gt_of_ne different with less | more
    · exact Or.inl (Or.inr ⟨same, less⟩)
    · exact Or.inr (Or.inr ⟨same.symm, more⟩)
  · exact Or.inr (Or.inl later)

end Sequence

end PagedServing
