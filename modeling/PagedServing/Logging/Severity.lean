/-! # Severities

How grave a log record is. Five severities have a name; any whole number is a level.
-/

namespace PagedServing.Logging

/-- The named severities of log records. -/
inductive Severity where
  | debug
  | info
  | warning
  | error
  | critical
  deriving Repr, DecidableEq

namespace Severity

/-- All severities, the least grave first. -/
def all : List Severity := [debug, info, warning, error, critical]

/-- The name of a severity. -/
def name : Severity → String
  | debug => "DEBUG"
  | info => "INFO"
  | warning => "WARNING"
  | error => "ERROR"
  | critical => "CRITICAL"

/-- The level of a severity. -/
def level : Severity → Int
  | debug => 10
  | info => 20
  | warning => 30
  | error => 40
  | critical => 50

/-- The severity of a name. -/
def ofName? (s : String) : Option Severity :=
  all.find? (·.name = s)

end Severity

/-- The names that levels answer to. Some levels have a second name. -/
def levelNames : List (String × Int) :=
  [("NOTSET", 0), ("WARN", 30), ("FATAL", 50)] ++ Severity.all.map fun s => (s.name, s.level)

/-- The level of a name. -/
def levelOfName? (s : String) : Option Int :=
  (levelNames.find? (·.1 = s)).map (·.2)

/-- The text that stands for a level in a record. -/
def levelName (level : Int) : String :=
  if level = 0 then "NOTSET"
  else
    match Severity.all.find? (·.level = level) with
    | some s => s.name
    | none => s!"Level {level}"

end PagedServing.Logging
