import PagedServing.Proofs.Cache.Change

/-! # Work on one sequence after another

While sequences are preempted or run again, each of them is worked on once, and the copies
between the pools add up.
-/

namespace PagedServing.Cache

/-- The sequences `ids` are worked on one after the other, the first of them last, and the
    copies that each takes are gathered. -/
inductive Transferred (work : Cache → SeqId → Cache → Moves → Prop) (c : Cache) :
    List SeqId → Cache → Moves → Prop where
  | nobody : Transferred work c [] c {}
  | next {ids : List SeqId} {c₁ c₂ : Cache} {moves more : Moves} {id : SeqId}
      (before : Transferred work c ids c₁ moves) (new : id ∉ ids) (handled : c₁.Handled c₂ id)
      (one : work c₁ id c₂ more) :
      Transferred work c (id :: ids) c₂ (moves.insertAll more.entries)

namespace Transferred

variable {work : Cache → SeqId → Cache → Moves → Prop} {c c' : Cache} {ids : List SeqId}
  {moves : Moves}

theorem sound (transferred : Transferred work c ids c' moves) (sound : c.Sound) : c'.Sound := by
  cases transferred with
  | nobody => exact sound
  | next _ _ handled _ => exact handled.sound

variable (transferred : Transferred work c ids c' moves)
include transferred

theorem blockSize : c'.blockSize = c.blockSize := by
  induction transferred with
  | nobody => rfl
  | next _ _ handled _ ih => exact handled.blockSize.trans ih

theorem sharing : c'.sharing = c.sharing := by
  induction transferred with
  | nobody => rfl
  | next _ _ handled _ ih => exact handled.sharing.trans ih

theorem knows_iff (id : SeqId) : c'.Knows id ↔ c.Knows id := by
  induction transferred with
  | nobody => rfl
  | next _ _ handled _ ih => exact (handled.knows_iff id).trans ih

theorem knows {id : SeqId} (member : id ∈ ids) : c.Knows id := by
  induction transferred with
  | nobody => cases member
  | next before _ handled _ ih =>
      rcases List.mem_cons.mp member with rfl | earlier
      · exact (before.knows_iff _).mp handled.knows
      · exact ih earlier

/-- Whoever was not worked on is as it was. -/
theorem others {id : SeqId} (outside : id ∉ ids) :
    c'.sequence id = c.sequence id ∧ c'.isSwapped id = c.isSwapped id := by
  induction transferred with
  | nobody => exact ⟨rfl, rfl⟩
  | next _ _ handled _ ih =>
      obtain ⟨different, outside⟩ := not_or.mp (mt List.mem_cons.mpr outside)
      obtain ⟨same, place⟩ := ih outside
      exact ⟨(handled.others _ different).trans same, (handled.swapped _ different).trans place⟩

end Transferred

end PagedServing.Cache
