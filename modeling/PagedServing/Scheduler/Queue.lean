/-! # Queues in order of priority

A new item goes behind every item that it does not precede. Its place is found by halving,
which needs the queue to be in order; in any other queue it is the place that halving
leads to.
-/

namespace PagedServing.Queue

/-- The place that halving leads to between `low` and `high`, where `before k` says that
    the new item precedes the item at `k`. -/
def placeBetween (before : Nat → Bool) (low high : Nat) : Nat :=
  if low < high then
    let middle := (low + high) / 2
    if before middle then placeBetween before low middle
    else placeBetween before (middle + 1) high
  else low
termination_by high - low

/-- The place of a new item, where `before x` says that it precedes `x`. -/
def place {α : Type} (before : α → Bool) (xs : List α) : Nat :=
  placeBetween (fun k => (xs[k]?.map before).getD false) 0 xs.length

/-- Put a new item into its place. -/
def insert {α : Type} (before : α → Bool) (item : α) (xs : List α) : List α :=
  let k := place before xs
  xs.take k ++ item :: xs.drop k

end PagedServing.Queue
