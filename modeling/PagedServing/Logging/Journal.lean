import PagedServing.Logging.Severity

/-! # The journal

Components report what they do as records. A journal keeps the records that are grave
enough, oldest first.
-/

namespace PagedServing.Logging

/-- One report of a component. -/
structure Record where
  severity : Severity
  /-- The name of the component that reports. -/
  source : String
  message : String
  deriving Repr, DecidableEq

/-- The records kept so far, and the least level that is kept. -/
structure Journal where
  threshold : Int := Severity.info.level
  records : List Record := []
  deriving Repr, DecidableEq

/-- Keep a record if it is grave enough. -/
def Journal.write (j : Journal) (r : Record) : Journal :=
  if j.threshold ≤ r.severity.level then { j with records := j.records ++ [r] } else j

/-- The journal after its records have been read. -/
def Journal.cleared (j : Journal) : Journal :=
  { j with records := [] }

end PagedServing.Logging
