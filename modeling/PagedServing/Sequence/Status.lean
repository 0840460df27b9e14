/-! # Where a sequence stands

A sequence waits, runs, may be preempted and run again, and ends finished or cancelled.
What ended it is its finish reason.
-/

namespace PagedServing

/-- The stations of a sequence. -/
inductive Status where
  /-- Arrived, and not admitted yet. -/
  | waiting
  /-- Holds device blocks and takes part in iterations. -/
  | running
  /-- Evicted in the middle of its generation. -/
  | preempted
  /-- Ended by a stop condition or an error. -/
  | finished
  /-- Ended by its caller. -/
  | cancelled
  deriving Repr, DecidableEq

namespace Status

/-- The name of a status. -/
def name : Status → String
  | waiting => "WAITING"
  | running => "RUNNING"
  | preempted => "PREEMPTED"
  | finished => "FINISHED"
  | cancelled => "CANCELLED"

/-- All statuses. -/
def all : List Status := [waiting, running, preempted, finished, cancelled]

/-- The status of a name. -/
def ofName? (s : String) : Option Status :=
  all.find? (·.name = s)

/-- Whether a sequence of this status never changes again. -/
def isTerminal : Status → Bool
  | finished | cancelled => true
  | waiting | running | preempted => false

end Status

/-- Why a sequence ended. -/
inductive FinishReason where
  /-- A stop token or stop sequence came up. -/
  | stop
  /-- A length limit was reached. -/
  | length
  /-- The caller gave it up. -/
  | cancelled
  /-- An iteration failed. -/
  | error
  /-- It could not be served. -/
  | rejected
  deriving Repr, DecidableEq

namespace FinishReason

/-- The word for a reason. -/
def name : FinishReason → String
  | stop => "stop"
  | length => "length"
  | cancelled => "cancelled"
  | error => "error"
  | rejected => "rejected"

/-- All reasons. -/
def all : List FinishReason := [stop, length, cancelled, error, rejected]

/-- The reason of a word. -/
def ofName? (s : String) : Option FinishReason :=
  all.find? (·.name = s)

/-- The terminal status that a reason leads to. -/
def status : FinishReason → Status
  | cancelled => .cancelled
  | stop | length | error | rejected => .finished

end FinishReason

end PagedServing
