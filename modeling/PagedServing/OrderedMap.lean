/-! # Maps that remember the order of insertion

A key keeps the place it was first inserted at until it is erased. Writing to a key that
is present replaces its value there.
-/

namespace PagedServing

/-- A finite map whose entries stand in the order in which their keys were inserted. -/
structure OrderedMap (κ υ : Type) where
  entries : List (κ × υ) := []
  deriving Repr, DecidableEq

namespace OrderedMap

variable {κ υ : Type} [DecidableEq κ]

/-- The value written last for `k`. -/
def get? (m : OrderedMap κ υ) (k : κ) : Option υ :=
  (m.entries.find? (·.1 = k)).map (·.2)

/-- Whether `k` has a value. -/
def contains (m : OrderedMap κ υ) (k : κ) : Bool :=
  m.entries.any (·.1 = k)

/-- Write `v` for `k` into a list of entries. -/
def insertEntry (k : κ) (v : υ) : List (κ × υ) → List (κ × υ)
  | [] => [(k, v)]
  | (k', v') :: rest => if k' = k then (k', v) :: rest else (k', v') :: insertEntry k v rest

/-- Write `v` for `k`: in place if `k` is present, at the end if it is new. -/
def insert (m : OrderedMap κ υ) (k : κ) (v : υ) : OrderedMap κ υ :=
  ⟨insertEntry k v m.entries⟩

/-- Forget `k`. -/
def erase (m : OrderedMap κ υ) (k : κ) : OrderedMap κ υ :=
  ⟨m.entries.filter (·.1 ≠ k)⟩

/-- Write a list of entries one after the other. -/
def insertAll (m : OrderedMap κ υ) (more : List (κ × υ)) : OrderedMap κ υ :=
  more.foldl (fun acc e => acc.insert e.1 e.2) m

/-- The map that a list of entries describes; a later entry wins. -/
def ofList (entries : List (κ × υ)) : OrderedMap κ υ :=
  insertAll ⟨[]⟩ entries

omit [DecidableEq κ] in
/-- The keys, oldest first. -/
def keys (m : OrderedMap κ υ) : List κ :=
  m.entries.map (·.1)

omit [DecidableEq κ] in
/-- The values, in the order of their keys. -/
def values (m : OrderedMap κ υ) : List υ :=
  m.entries.map (·.2)

omit [DecidableEq κ] in
/-- Whether the map has no entry. -/
def isEmpty (m : OrderedMap κ υ) : Bool :=
  m.entries.isEmpty

omit [DecidableEq κ] in
/-- The number of entries. -/
def size (m : OrderedMap κ υ) : Nat :=
  m.entries.length

/-- Looking an entry up after writing one. -/
theorem find?_insertEntry (k k' : κ) (v : υ) (es : List (κ × υ)) :
    ((insertEntry k v es).find? (·.1 = k')).map (·.2) =
      if k' = k then some v else (es.find? (·.1 = k')).map (·.2) := by
  induction es with
  | nil => by_cases h : k' = k <;> simp [insertEntry, h, eq_comm]
  | cons e rest ih =>
    obtain ⟨a, b⟩ := e
    by_cases ha : a = k
    · subst ha
      by_cases h : k' = a
      · simp [insertEntry, h]
      · simp [insertEntry, h, Ne.symm h]
    · by_cases h : a = k'
      · subst h
        simp [insertEntry, ha]
      · simp [insertEntry, ha, h, ih]

/-- A written key reads back, and other keys keep their values. -/
@[simp]
theorem get?_insert (m : OrderedMap κ υ) (k k' : κ) (v : υ) :
    (m.insert k v).get? k' = if k' = k then some v else m.get? k' :=
  find?_insertEntry k k' v m.entries

/-- An erased key has no value, and other keys keep theirs. -/
@[simp]
theorem get?_erase (m : OrderedMap κ υ) (k k' : κ) :
    (m.erase k).get? k' = if k' = k then none else m.get? k' := by
  unfold erase get?
  induction m.entries with
  | nil => simp
  | cons e rest ih =>
    by_cases he : e.1 = k
    · by_cases hk : k' = k
      · simp_all
      · have : e.1 ≠ k' := fun h => hk (h ▸ he)
        simp_all
    · by_cases hk : e.1 = k'
      · have : k' ≠ k := fun h => he (hk.trans h)
        simp_all
      · simp_all

end OrderedMap

end PagedServing
