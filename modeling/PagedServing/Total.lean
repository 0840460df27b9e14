/-! # Totals

The total of a list of whole numbers.
-/

namespace PagedServing

/-- The total of a list. -/
def total : List Int → Int
  | [] => 0
  | n :: rest => n + total rest

@[simp]
theorem total_nil : total [] = 0 :=
  rfl

@[simp]
theorem total_cons (n : Int) (rest : List Int) : total (n :: rest) = n + total rest :=
  rfl

/-- The total of two lists behind each other. -/
@[simp]
theorem total_append (ms ns : List Int) : total (ms ++ ns) = total ms + total ns := by
  induction ms with
  | nil => simp
  | cons m rest ih => simp [ih, Int.add_assoc]

section Map

variable {α : Type} {f g : α → Int} {xs : List α}

/-- The total of numbers that are not negative is not negative. -/
theorem total_map_nonneg (natural : ∀ x ∈ xs, 0 ≤ f x) : 0 ≤ total (xs.map f) := by
  induction xs with
  | nil => exact Int.le_refl 0
  | cons x rest ih =>
      obtain ⟨first, others⟩ := List.forall_mem_cons.mp natural
      rw [List.map_cons, total_cons]
      exact Int.add_nonneg first (ih others)

/-- The total of positive numbers is at least their count. -/
theorem length_le_total_map (positive : ∀ x ∈ xs, 0 < f x) : xs.length ≤ total (xs.map f) := by
  induction xs with
  | nil => exact Int.le_refl 0
  | cons x rest ih =>
      obtain ⟨first, others⟩ := List.forall_mem_cons.mp positive
      have behind := ih others
      rw [List.map_cons, total_cons, List.length_cons]
      omega

/-- The total of numbers that are at most one is at most their count. -/
theorem total_map_le_length (small : ∀ x ∈ xs, f x ≤ 1) : total (xs.map f) ≤ xs.length := by
  induction xs with
  | nil => exact Int.le_refl 0
  | cons x rest ih =>
      obtain ⟨first, others⟩ := List.forall_mem_cons.mp small
      have behind := ih others
      rw [List.map_cons, total_cons, List.length_cons]
      omega

/-- A total is not more than another if no number is more. -/
theorem total_map_le (least : ∀ x ∈ xs, f x ≤ g x) : total (xs.map f) ≤ total (xs.map g) := by
  induction xs with
  | nil => exact Int.le_refl 0
  | cons x rest ih =>
      obtain ⟨first, others⟩ := List.forall_mem_cons.mp least
      rw [List.map_cons, List.map_cons, total_cons, total_cons]
      exact Int.add_le_add first (ih others)

/-- It is less if some number is less besides. -/
theorem total_map_lt (least : ∀ x ∈ xs, f x ≤ g x) {x : α} (member : x ∈ xs) (less : f x < g x) :
    total (xs.map f) < total (xs.map g) := by
  obtain ⟨front, back, rfl⟩ := List.append_of_mem member
  have before := total_map_le fun y among => least y (List.mem_append_left _ among)
  have behind := total_map_le fun y among =>
    least y (List.mem_append_right front (List.mem_cons_of_mem x among))
  simp only [List.map_append, List.map_cons, total_append, total_cons]
  omega

end Map

/-- The order does not matter. -/
theorem total_perm {ms ns : List Int} (perm : ms.Perm ns) : total ms = total ns := by
  induction perm with
  | nil => rfl
  | cons n _ ih => rw [total_cons, total_cons, ih]
  | swap m n rest => simp only [total_cons, Int.add_left_comm]
  | trans _ _ first second => exact first.trans second

end PagedServing
