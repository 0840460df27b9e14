import PagedServing.Proofs.Cache.Frame

/-! # Handing blocks out

While sequences only get blocks, a label goes from no block but one that nobody held. So what a
sequence shares with others stays what it was found for.
-/

namespace PagedServing.Cache

variable {c c' c'' : Cache} {id : SeqId} {b : Int}

/-- Blocks were handed out. Nothing was published, and nobody gave a block up. -/
structure Supplied (c c' : Cache) : Prop where
  registry : ∀ h b, c'.device.registry.get? h = some b → c.device.registry.get? h = some b
  holders : ∀ b, c.deviceHolders b ≤ c'.deviceHolders b
  label : ∀ b, 0 ≤ b → (c'.device.entry b).hash = (c.device.entry b).hash ∨
    (c'.device.entry b).hash = noHash ∧ c.deviceHolders b = 0

/-- The whole blocks that a sequence has computed carry labels. -/
def Marked (c : Cache) (id : SeqId) : Prop :=
  ∀ (i : Nat) b, (c.sequence id).table[i]? = some b →
    ((i + 1 : Nat) * c.blockSize : Int) ≤ (c.sequence id).computed →
      (c.device.entry b).hash ≠ noHash

theorem Marked.noted {q : Sequence} {other : SeqId} (marked : c.Marked id)
    (noted : c.Noted c' other q)
    (computed : (c'.sequence id).computed = (c.sequence id).computed) : c'.Marked id := by
  intro i b place done
  rw [noted.tables] at place
  rw [noted.replaced.blockSize, computed] at done
  rw [noted.device]
  exact marked i b place done

namespace Supplied

theorem of_agrees (agrees : c.device.Agrees c'.device)
    (holders : ∀ b, c.deviceHolders b ≤ c'.deviceHolders b) : c.Supplied c' := by
  constructor
  case registry => exact fun h b found => agrees.registry ▸ found
  case holders => exact holders
  case label => exact fun b natural => Or.inl (agrees.hash b natural)

theorem of_renewed {ids : List Int} (renewed : c.device.Renewed c'.device ids)
    (unheld : ∀ b ∈ ids, c.deviceHolders b = 0)
    (holders : ∀ b, c.deviceHolders b ≤ c'.deviceHolders b) : c.Supplied c' := by
  constructor
  case registry => exact fun h b found => ((renewed.registry h b).mp found).1
  case holders => exact holders
  case label =>
    intro b natural
    by_cases new : b ∈ ids
    · rw [renewed.reset b new]
      exact Or.inr ⟨rfl, unheld b new⟩
    · rw [renewed.kept b natural new]
      exact Or.inl rfl

theorem of_device (device : c'.device = c.device) (holders : c'.deviceHolders = c.deviceHolders) :
    c.Supplied c' :=
  .of_agrees (device ▸ Pool.Agrees.refl _) fun b => Nat.le_of_eq (congrFun holders b).symm

theorem refl (c : Cache) : c.Supplied c :=
  .of_device rfl rfl

theorem of_noted {q : Sequence} (noted : c.Noted c' id q) : c.Supplied c' :=
  .of_device noted.device noted.deviceHolders

theorem trans (first : c.Supplied c') (second : c'.Supplied c'') : c.Supplied c'' := by
  constructor
  case registry => exact fun h b found => first.registry h b (second.registry h b found)
  case holders => exact fun b => (first.holders b).trans (second.holders b)
  case label =>
    intro b natural
    rcases second.label b natural with same | ⟨plain, unheld⟩
    · exact same ▸ first.label b natural
    · have := first.holders b
      exact Or.inr ⟨plain, by omega⟩

variable (supplied : c.Supplied c')
include supplied

/-- A block without a label gets none. -/
theorem plain (natural : 0 ≤ b) (plain : (c.device.entry b).hash = noHash) :
    (c'.device.entry b).hash = noHash := by
  rcases supplied.label b natural with same | ⟨gone, _⟩
  · exact same.trans plain
  · exact gone

theorem kept (sound : c.Sound) (member : b ∈ c.deviceTable id) :
    (c'.device.entry b).hash = (c.device.entry b).hash := by
  obtain ⟨i, place⟩ := List.mem_iff_getElem?.mp member
  have held := holders_pos_of_mem (knows_of_place place) member
  refine (supplied.label b (sound.balanced.has_of_mem member).1).resolve_right fun gone => ?_
  omega

end Supplied

end PagedServing.Cache
