/-! # Offsets counted from either end

A non-negative offset counts from the front of a list, a negative one from its back.
`resolve` says which place an offset names, `suffix` and `stride` cut lists by offsets.
-/

namespace PagedServing.Offset

/-- The place that offset `i` names in a list of `n` items, if it names one. -/
def resolve (n : Nat) (i : Int) : Option Nat :=
  if 0 ≤ i then
    if i < n then some i.toNat else none
  else if -(n : Int) ≤ i then
    some (n + i).toNat
  else
    none

/-- An offset names a place inside the list. -/
theorem resolve_lt {n k : Nat} {i : Int} (h : resolve n i = some k) : k < n := by
  unfold resolve at h
  split at h
  · split at h
    · simp only [Option.some.injEq] at h
      omega
    · cases h
  · split at h
    · simp only [Option.some.injEq] at h
      omega
    · cases h

/-- A natural offset inside the list names its own place. -/
theorem resolve_ofNat {n k : Nat} (h : k < n) : resolve n k = some k := by
  simp [resolve, h]

/-- The item at offset `i`. -/
def get? {α : Type} (xs : List α) (i : Int) : Option α :=
  (resolve xs.length i).bind (xs[·]?)

/-- The items from offset `start` on; an offset before the front means the whole list. -/
def suffix {α : Type} (xs : List α) (start : Int) : List α :=
  if 0 ≤ start then xs.drop start.toNat else xs.drop (start + xs.length).toNat

/-- An optional bound brought into `low … high`, a negative one counted from the back. -/
def clamp (n : Nat) (low high : Int) (fallback : Int) : Option Int → Int
  | none => fallback
  | some i => if i < 0 then max (i + n) low else min i high

/-- Every `step`-th item from `start` up to, and without, `stop`. A negative step walks
    backwards. A step of zero has no meaning and gives `none`. -/
def stride {α : Type} (xs : List α) (start stop : Option Int) (step : Int) :
    Option (List α) :=
  let n := xs.length
  if step = 0 then
    none
  else if 0 < step then
    let first := clamp n 0 n 0 start
    let last := clamp n 0 n n stop
    let count := (last - first + step - 1) / step
    some ((List.range count.toNat).filterMap fun (k : Nat) => xs[(first + k * step).toNat]?)
  else
    let first := clamp n (-1) (n - 1) (n - 1) start
    let last := clamp n (-1) (n - 1) (-1) stop
    let count := (first - last - step - 1) / -step
    some ((List.range count.toNat).filterMap fun (k : Nat) => xs[(first + k * step).toNat]?)

end PagedServing.Offset
