import Mathlib.Data.List.Basic
import PagedServing.Scheduler.Queue

/-! # Queues stay in order

Halving splits an ordered queue into what the new item does not precede and what it does
precede. So an ordered queue stays ordered, and an item that goes first or last is simply
put there.
-/

namespace PagedServing.Queue

variable {α : Type}

theorem placeBetween_separates {before : Nat → Bool} {size : Nat}
    (mono : ∀ i j, i < j → j < size → before i = true → before j = true) (low high : Nat)
    (ordered : low ≤ high) (inside : high ≤ size) (below : ∀ i < low, before i = false)
    (above : ∀ i, high ≤ i → i < size → before i = true) :
    placeBetween before low high ≤ size ∧ (∀ i < placeBetween before low high, before i = false) ∧
      ∀ i, placeBetween before low high ≤ i → i < size → before i = true := by
  induction low, high using placeBetween.induct before with
  | case1 low high some middle precedes ih =>
      rw [placeBetween, if_pos some, if_pos precedes]
      refine ih (by omega) (by omega) below fun i least less => ?_
      rcases Nat.eq_or_lt_of_le least with rfl | more
      · exact precedes
      · exact mono middle i more less precedes
  | case2 low high some middle behind ih =>
      rw [placeBetween, if_pos some, if_neg behind]
      refine ih (by omega) inside (fun i less => ?_) above
      by_contra holds
      have holds : before i = true := by simpa using holds
      rcases Nat.eq_or_lt_of_le (Nat.le_of_lt_succ less) with rfl | less
      · exact behind holds
      · exact behind (mono i middle less (by omega) holds)
  | case3 low high none =>
      rw [placeBetween, if_neg none]
      obtain rfl : low = high := by omega
      exact ⟨inside, below, above⟩

variable {before : α → Bool} {item : α} {xs : List α}

variable (before item) in
/-- The new item goes between what it does not precede and what it does. -/
theorem insert_splits (mono : xs.Pairwise fun x y => before x = true → before y = true) :
    ∃ front back, xs = front ++ back ∧ insert before item xs = front ++ item :: back ∧
      (∀ x ∈ front, before x = false) ∧ ∀ x ∈ back, before x = true := by
  have read : ∀ i (inside : i < xs.length), (xs[i]?.map before).getD false = before xs[i] := by
    intro i inside
    simp [inside]
  have lasting : ∀ i j, i < j → j < xs.length → (xs[i]?.map before).getD false = true →
      (xs[j]?.map before).getD false = true := by
    intro i j less bound holds
    rw [read j bound]
    rw [read i (Nat.lt_trans less bound)] at holds
    exact List.pairwise_iff_getElem.mp mono i j _ bound less holds
  obtain ⟨inside, below, above⟩ := placeBetween_separates lasting 0 xs.length (Nat.zero_le _)
    (Nat.le_refl _) (fun i none => absurd none (Nat.not_lt_zero i))
    fun i least less => absurd less (Nat.not_lt_of_le least)
  refine ⟨xs.take (place before xs), xs.drop (place before xs), (List.take_append_drop _ _).symm,
    rfl, fun x member => ?_, fun x member => ?_⟩
  · obtain ⟨i, less, rfl⟩ := List.mem_take_iff_getElem.mp member
    have less : i < place before xs := by omega
    have bound : i < xs.length := Nat.lt_of_lt_of_le less inside
    exact (read i bound).symm.trans (below i less)
  · obtain ⟨i, less, rfl⟩ := List.mem_drop_iff_getElem.mp member
    have bound : place before xs + i < xs.length := by omega
    exact (read _ bound).symm.trans (above _ (Nat.le_add_right _ _) bound)

theorem insert_first (all : ∀ x ∈ xs, before x = true) : insert before item xs = item :: xs := by
  have mono : xs.Pairwise fun x y => before x = true → before y = true :=
    List.pairwise_of_forall_mem_list fun _ _ y member _ => all y member
  obtain ⟨front, back, split, inserted, behind, _⟩ := insert_splits before item mono
  obtain rfl : front = [] := by
    refine List.eq_nil_iff_forall_not_mem.mpr fun x member => ?_
    have precedes := all x (split ▸ List.mem_append_left back member)
    simp [behind x member] at precedes
  rw [inserted, split]
  rfl

theorem insert_last (none : ∀ x ∈ xs, before x = false) : insert before item xs = xs ++ [item] := by
  have mono : xs.Pairwise fun x y => before x = true → before y = true :=
    List.pairwise_of_forall_mem_list fun x member _ _ holds => by simp [none x member] at holds
  obtain ⟨front, back, split, inserted, _, ahead⟩ := insert_splits before item mono
  obtain rfl : back = [] := by
    refine List.eq_nil_iff_forall_not_mem.mpr fun x member => ?_
    have precedes := none x (split ▸ List.mem_append_right front member)
    simp [ahead x member] at precedes
  rw [inserted, split, List.append_nil]

theorem insert_pairwise {r : α → α → Prop} [IsTrans α r] (ordered : xs.Pairwise r)
    (ahead : ∀ x ∈ xs, before x = true → r item x) (behind : ∀ x ∈ xs, before x = false → r x item)
    (sure : ∀ x ∈ xs, r item x → before x = true) : (insert before item xs).Pairwise r := by
  have mono : xs.Pairwise fun x y => before x = true → before y = true := by
    refine ordered.imp_of_mem fun left right related holds => ?_
    exact sure _ right (IsTrans.trans _ _ _ (ahead _ left holds) related)
  obtain ⟨front, back, rfl, inserted, least, most⟩ := insert_splits before item mono
  obtain ⟨first, second, across⟩ := List.pairwise_append.mp ordered
  rw [inserted, List.pairwise_append, List.pairwise_cons]
  refine ⟨first, ⟨fun y member => ?_, second⟩, fun x member y among => ?_⟩
  · exact ahead y (List.mem_append_right front member) (most y member)
  · rcases List.mem_cons.mp among with rfl | among
    · exact behind x (List.mem_append_left back member) (least x member)
    · exact across x member y among

end PagedServing.Queue
