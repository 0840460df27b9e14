import Mathlib.Data.List.Nodup
import PagedServing.OrderedMap

/-! # Entries of maps

What is written to a map is found in it, and a key that is new gets an entry of its own at the
end.
-/

namespace PagedServing.OrderedMap

variable {κ υ : Type}

theorem mem_values {m : OrderedMap κ υ} {v : υ} : v ∈ m.values ↔ ∃ k, (k, v) ∈ m.entries := by
  simp [values]

theorem value_unique {m : OrderedMap κ υ} (distinct : m.keys.Nodup) {k : κ} {v v' : υ}
    (entry : (k, v) ∈ m.entries) (entry' : (k, v') ∈ m.entries) : v = v' :=
  congrArg Prod.snd (List.inj_on_of_nodup_map distinct entry entry' rfl)

variable [DecidableEq κ]

theorem contains_eq_false_iff {m : OrderedMap κ υ} {k : κ} : m.contains k = false ↔ m.get? k = none := by
  simp [contains, get?]

theorem mem_values_of_get? {m : OrderedMap κ υ} {k : κ} {v : υ} (found : m.get? k = some v) :
    v ∈ m.values := by
  obtain ⟨e, entry, rfl⟩ := Option.map_eq_some_iff.mp found
  exact List.mem_map_of_mem (List.mem_of_find?_eq_some entry)

theorem mem_erase_entries {m : OrderedMap κ υ} {k : κ} {e : κ × υ} :
    e ∈ (m.erase k).entries ↔ e ∈ m.entries ∧ e.1 ≠ k := by
  simp [erase]

theorem keys_erase_nodup {m : OrderedMap κ υ} (distinct : m.keys.Nodup) (k : κ) :
    (m.erase k).keys.Nodup :=
  List.Nodup.sublist (List.filter_sublist.map _) distinct

theorem values_erase_nodup {m : OrderedMap κ υ} (distinct : m.values.Nodup) (k : κ) :
    (m.erase k).values.Nodup :=
  List.Nodup.sublist (List.filter_sublist.map _) distinct

/-- Writing to a key that has no value adds an entry. -/
theorem insert_new {m : OrderedMap κ υ} {k : κ} (absent : m.contains k = false) (v : υ) :
    (m.insert k v).entries = m.entries ++ [(k, v)] := by
  have absent : ∀ e ∈ m.entries, e.1 ≠ k := by simpa [contains] using absent
  suffices ∀ es : List (κ × υ), (∀ e ∈ es, e.1 ≠ k) → insertEntry k v es = es ++ [(k, v)] from
    this m.entries absent
  intro es
  induction es with
  | nil => intro _; rfl
  | cons e rest ih =>
      intro absent
      have different : e.1 ≠ k := absent e List.mem_cons_self
      have others := ih fun e member => absent e (List.mem_cons_of_mem _ member)
      simp [insertEntry, different, others]

/-- Writing to new keys adds the entries at the end. -/
theorem entries_insertAll {m : OrderedMap κ υ} {more : List (κ × υ)}
    (distinct : (m.keys ++ more.map (·.1)).Nodup) :
    (m.insertAll more).entries = m.entries ++ more := by
  induction more generalizing m with
  | nil => simp [insertAll]
  | cons e rest ih =>
      obtain ⟨k, v⟩ := e
      have absent : m.contains k = false := by
        rw [List.nodup_append] at distinct
        rw [contains, List.any_eq_false]
        intro e member
        simpa using distinct.2.2 e.1 (List.mem_map_of_mem member) k List.mem_cons_self
      have added := insert_new absent v
      have keys : (m.insert k v).keys = m.keys ++ [k] := by simp [OrderedMap.keys, added]
      have later := ih (m := m.insert k v) (by simpa [keys] using distinct)
      rw [added, List.append_assoc] at later
      exact later

theorem entries_insertAll_ofList {m : OrderedMap κ υ} {more : List (κ × υ)}
    (distinct : (m.keys ++ more.map (·.1)).Nodup) :
    (m.insertAll (ofList more).entries).entries = m.entries ++ more := by
  have alone : (ofList more).entries = more := by
    have keys := (List.nodup_append.mp distinct).2.1
    exact (entries_insertAll (m := (⟨[]⟩ : OrderedMap κ υ)) keys).trans (List.nil_append more)
  rw [alone]
  exact entries_insertAll distinct

section Found

variable {m : OrderedMap κ υ} {entries : List (κ × υ)} {k : κ} {v : υ}

theorem mem_of_get? (found : m.get? k = some v) : (k, v) ∈ m.entries := by
  obtain ⟨e, entry, rfl⟩ := Option.map_eq_some_iff.mp found
  have same := List.find?_some entry
  obtain rfl : e.1 = k := of_decide_eq_true same
  exact List.mem_of_find?_eq_some entry

theorem get?_eq_some_iff (distinct : m.keys.Nodup) : m.get? k = some v ↔ (k, v) ∈ m.entries := by
  refine ⟨mem_of_get?, fun entry => ?_⟩
  have found : (m.entries.find? (·.1 = k)).isSome :=
    List.find?_isSome.mpr ⟨(k, v), entry, decide_eq_true rfl⟩
  obtain ⟨e, found⟩ := Option.isSome_iff_exists.mp found
  have read : m.get? k = some e.2 := congrArg (Option.map Prod.snd) found
  rw [read, value_unique distinct (mem_of_get? read) entry]

/-- What is found after writing some entries was written or was there before. -/
theorem get?_insertAll (found : (m.insertAll entries).get? k = some v) :
    (k, v) ∈ entries ∨ m.get? k = some v := by
  induction entries generalizing m with
  | nil => exact Or.inr found
  | cons e rest ih =>
      rcases ih (m := m.insert e.1 e.2) found with later | before
      · exact Or.inl (List.mem_cons_of_mem _ later)
      · rw [get?_insert] at before
        split at before
        · rename_i same
          cases before
          subst same
          exact Or.inl List.mem_cons_self
        · exact Or.inr before

theorem insertAll_isSome (either : (∃ v, (k, v) ∈ entries) ∨ (m.get? k).isSome) :
    ((m.insertAll entries).get? k).isSome := by
  induction entries generalizing m with
  | nil => exact either.resolve_left (by simp)
  | cons e rest ih =>
      refine ih (m := m.insert e.1 e.2) ?_
      rw [get?_insert]
      by_cases same : k = e.1
      · exact Or.inr (by simp [same])
      · rcases either with ⟨v, member⟩ | before
        · rcases List.mem_cons.mp member with rfl | later
          · exact absurd rfl same
          · exact Or.inl ⟨v, later⟩
        · exact Or.inr (by simpa [same] using before)

theorem mem_insertEntry {es : List (κ × υ)} {e : κ × υ} (member : e ∈ insertEntry k v es) :
    e = (k, v) ∨ e ∈ es := by
  induction es with
  | nil => exact Or.inl (List.mem_singleton.mp member)
  | cons first rest ih =>
      unfold insertEntry at member
      split at member
      · rename_i same
        rcases List.mem_cons.mp member with rfl | later
        · exact Or.inl (by rw [same])
        · exact Or.inr (List.mem_cons_of_mem _ later)
      · rcases List.mem_cons.mp member with rfl | later
        · exact Or.inr List.mem_cons_self
        · exact (ih later).imp_right (List.mem_cons_of_mem _)

theorem mem_ofList {e : κ × υ} (member : e ∈ (ofList entries).entries) : e ∈ entries := by
  suffices ∀ m : OrderedMap κ υ, e ∈ (m.insertAll entries).entries → e ∈ m.entries ∨ e ∈ entries from
    (this ⟨[]⟩ member).resolve_left List.not_mem_nil
  clear member
  induction entries with
  | nil => exact fun m member => Or.inl member
  | cons first rest ih =>
      intro m member
      rcases ih (m.insert first.1 first.2) member with before | later
      · exact (mem_insertEntry before).elim (fun same => Or.inr (same ▸ List.mem_cons_self)) Or.inl
      · exact Or.inr (List.mem_cons_of_mem _ later)

theorem get?_insertAll_ofList (found : (m.insertAll (ofList entries).entries).get? k = some v) :
    (k, v) ∈ entries ∨ m.get? k = some v :=
  (get?_insertAll found).imp_left mem_ofList

theorem insertAll_ofList_isSome (either : (∃ v, (k, v) ∈ entries) ∨ (m.get? k).isSome) :
    ((m.insertAll (ofList entries).entries).get? k).isSome := by
  refine insertAll_isSome (either.imp_left ?_)
  rintro ⟨v, member⟩
  have found : ((ofList entries).get? k).isSome := insertAll_isSome (Or.inl ⟨v, member⟩)
  obtain ⟨v', found⟩ := Option.isSome_iff_exists.mp found
  exact ⟨v', mem_of_get? found⟩

end Found

end PagedServing.OrderedMap
