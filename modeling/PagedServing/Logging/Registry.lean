import PagedServing.Logging.Template
import PagedServing.OrderedMap
import PagedServing.Text.Capitals

/-! # The registry of loggers

All loggers hang off one package logger. It alone has a level and writes records to the
console and, if asked to, to a file; the others hand their records up to it. Setting a
logger up is done once: later requests for it change nothing.
-/

namespace PagedServing.Logging

/-- Where records are written to. -/
inductive Sink where
  | console
  /-- A file, written to at a position of its own. -/
  | file (name : String) (position : Nat)
  /-- A file, written to at its end. -/
  | fileEnd (name : String)
  deriving Repr, DecidableEq

/-- A level as it is given: a number or a name. -/
inductive LevelChoice where
  | number (n : Int)
  | name (s : String)
  deriving Repr, DecidableEq

/-- Why a logger is not set up as asked. -/
inductive RegistryRefusal where
  | fileMode
  | unknownLevel (name : String)
  deriving Repr, DecidableEq

/-- The text of a refusal. -/
def RegistryRefusal.message : RegistryRefusal → String
  | fileMode => "file_mode must be either 'w' or 'a'"
  | unknownLevel name => s!"Unknown level: {Text.quoted name}"

/-- The level of a choice. -/
def LevelChoice.level : LevelChoice → Except RegistryRefusal Int
  | number n => .ok n
  | name s =>
    match levelOfName? s with
    | some n => .ok n
    | none => .error (.unknownLevel s)

/-- The state of all loggers, and the files they write to. -/
structure Registry where
  /-- The least severity that the environment asks for. -/
  environment : Option String := none
  /-- The loggers that were set up, in order. -/
  initialized : List String := []
  /-- The loggers that were ever asked for. -/
  known : List String := []
  /-- The level of the package logger; zero if it has none. -/
  level : Int := 0
  /-- Where the package logger writes to. -/
  sinks : List Sink := []
  files : OrderedMap String (List UInt8) := {}

/-- How a logger is to be set up. -/
structure Setup where
  file : Option String := none
  level : Option LevelChoice := none
  mode : String := "w"

/-- Where and when records are made. -/
structure Origin where
  time : String
  function : String
  line : String

namespace Registry

/-- An action on the registry. -/
abbrev Act (α : Type) := EStateM RegistryRefusal Registry α

/-- The name of the package logger. -/
def package : String := "scalellm"

/-- What a line looks like. -/
def template : String :=
  "%(asctime)s - %(name)s.%(funcName)s:%(lineno)d - %(levelname)s - %(message)s"

/-- Whether a name stands below another one. -/
def isBelow (name above : String) : Bool :=
  name.startsWith (above ++ ".")

/-- The full name of a logger. -/
def fullName (name : String) : String :=
  if name = package ∨ isBelow name package then name else package ++ "." ++ name

/-- The level of the package logger if none is asked for. -/
def defaultLevel (r : Registry) : Int :=
  match Severity.ofName? (Text.capitals (r.environment.getD Severity.info.name)) with
  | some s => s.level
  | none => Severity.info.level

/-- The content of a file that may not exist. -/
def content (r : Registry) (file : String) : List UInt8 :=
  (r.files.get? file).getD []

/-- Give a file a new content. -/
def putText (r : Registry) (file text : String) : Registry :=
  { r with files := r.files.insert file text.toUTF8.toList }

/-- The text of a file that exists. -/
def textOf? (r : Registry) (file : String) : Option String := do
  String.fromUTF8? ⟨(← r.files.get? file).toArray⟩

/-- Open a file. Unless it is to be continued, it loses its content. -/
def openFile (r : Registry) (file : String) (continued : Bool) : Registry × Sink :=
  if continued then
    ({ r with files := r.files.insert file (r.content file) }, .fileEnd file)
  else
    ({ r with files := r.files.insert file [] }, .file file 0)

/-- Note that a logger was asked for. -/
def meet (name : String) (r : Registry) : Registry :=
  { r with known := r.known.insert name }

/-- Set the level of the package logger. -/
def assignLevel (choice : LevelChoice) : Act Unit :=
  match choice.level with
  | .ok n => modify fun r => { r with level := n }
  | .error refusal => throw refusal

/-- Refuse a file mode other than writing and appending. -/
def checkMode (setup : Setup) : Act Unit :=
  if setup.mode = "w" ∨ setup.mode = "a" then return else throw .fileMode

/-- Set up the package logger, unless that was done. -/
def setUpPackage (setup : Setup) : Act Unit := do
  checkMode setup
  modify (meet package)
  if (← get).initialized.contains package then return
  let r ← get
  match setup.file with
  | none => set { r with sinks := [.console] }
  | some file =>
    let (r, sink) := r.openFile file (setup.mode = "a")
    set { r with sinks := [.console, sink] }
  assignLevel (setup.level.getD (.number r.defaultLevel))
  modify fun r => { r with initialized := r.initialized ++ [package] }

/-- Ask for a logger, and give its full name back. It is set up unless it was, or stands
    below one that was. -/
def obtain (name : String) (setup : Setup := {}) : Act String := do
  let name := fullName name
  if name = package then
    setUpPackage setup
  else
    checkMode setup
    modify (meet name)
    let r ← get
    unless r.initialized.contains name || r.initialized.any (isBelow name) do
      setUpPackage setup
      modify fun r => { r with initialized := r.initialized ++ [name] }
  return name

/-- Set the level of the package logger, by number or by a name in any case. -/
def setLevel (choice : LevelChoice) : Act Int := do
  let choice : LevelChoice := match choice with
    | .number n => .number n
    | .name s =>
      match levelOfName? (Text.capitals s) with
      | some n => .number n
      | none => .name s!"Level {Text.capitals s}"
  let _ ← obtain package
  assignLevel choice
  return (← get).level

/-- The dotted names above a name, given in reverse: the nearest one first. A dot right
    before the end of such a name is passed over. -/
def above : List Char → List String
  | [] => []
  | c :: rest =>
    if c = '.' ∧ rest ≠ [] then
      String.ofList rest.reverse :: above (rest.drop 1)
    else
      above rest
termination_by cs => cs.length
decreasing_by
  all_goals simp only [List.length_drop, List.length_cons]; omega

/-- Whether the records of a logger reach the package logger, going up from one known
    logger to the next. -/
def reaches (r : Registry) : Nat → String → Bool
  | 0, _ => false
  | n + 1, name =>
    name = package ||
      match (above name.toList.reverse).find? (r.known.contains ·) with
      | some parent => r.reaches n parent
      | none => false

/-- Whether the records of a logger reach the package logger. -/
def isAttached (r : Registry) (name : String) : Bool :=
  r.reaches (name.length + 1) name

/-- The least level of the records that a logger lets pass. -/
def effectiveLevel (r : Registry) (name : String) : Int :=
  if r.isAttached name ∧ r.level ≠ 0 then r.level else Severity.warning.level

/-- Bytes written into a content at a position. A gap before it is filled with zeros. -/
def overwrite (content : List UInt8) (position : Nat) (bytes : List UInt8) : List UInt8 :=
  let before := content.take position
  before ++ List.replicate (position - before.length) 0 ++ bytes ++
    content.drop (position + bytes.length)

/-- Write a line to a sink, and give back the sink as it is afterwards. -/
def writeTo (line : String) (r : Registry) : Sink → Registry × Sink
  | .console => (r, .console)
  | .file name position =>
    let bytes := line.toUTF8.toList
    ({ r with files := r.files.insert name (overwrite (r.content name) position bytes) },
      .file name (position + bytes.length))
  | .fileEnd name =>
    ({ r with files := r.files.insert name (r.content name ++ line.toUTF8.toList) },
      .fileEnd name)

/-- Write a line to all sinks. -/
def writeLine (line : String) (r : Registry) : Registry :=
  let (r', sinks) := r.sinks.foldl
    (fun (r, done) sink => let (r, sink) := r.writeTo line sink; (r, done ++ [sink])) (r, [])
  { r' with sinks }

/-- Make a record, and give back what appears on the console. -/
def log (origin : Origin) (name : String) (level : Int) (message : String) : Act String := do
  let name ← obtain name
  let r ← get
  if level ≤ 0 ∨ level < r.effectiveLevel name ∨ !r.isAttached name then return ""
  let entry : Entry :=
    { logger := name, level, message
      time := origin.time, function := origin.function, line := origin.line }
  match format template entry with
  | .error _ => return ""
  | .ok line =>
    let line := line ++ "\n"
    set (r.writeLine line)
    return if r.sinks.contains .console then line else ""

/-- What can be told about a logger. -/
structure LoggerView where
  name : String
  /-- The number of places that it writes to itself. -/
  sinks : Nat
  level : Int
  effective : Int
  deriving Repr, DecidableEq

/-- The view of a logger. -/
def view (r : Registry) (name : String) : LoggerView :=
  if name = package then ⟨name, r.sinks.length, r.level, r.effectiveLevel name⟩
  else ⟨name, 0, 0, r.effectiveLevel name⟩

end Registry

end PagedServing.Logging
