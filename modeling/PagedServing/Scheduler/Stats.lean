import PagedServing.Decimal.Nearest

/-! # Statistics

Counts taken between two iterations.
-/

namespace PagedServing

/-- A snapshot of the counts of a scheduler. -/
structure Stats where
  /-- Iterations completed. -/
  iteration : Int := 0
  waiting : Int := 0
  running : Int := 0
  preempted : Int := 0
  /-- Device blocks. -/
  total : Int := 0
  /-- Free device blocks. -/
  free : Int := 0
  /-- Free host blocks. -/
  hostFree : Int := 0
  /-- Preemptions so far. -/
  preemptions : Int := 0
  /-- Requests that ended so far. -/
  ended : Int := 0
  deriving Repr, DecidableEq

namespace Stats

/-- The device blocks in use. -/
def used (s : Stats) : Int :=
  s.total - s.free

/-- The part of the device blocks that is in use, if a floating-point number can say it.
    Of no blocks, nothing is in use. -/
def usage? (s : Stats) : Option Float :=
  if s.total = 0 then some 0 else Decimal.nearest? s.used s.total

end Stats

end PagedServing
