import PagedServing.Logging.Severity
import PagedServing.Text.Quoted

/-! # Templates of log lines

A template says what the line of a log record looks like: text, and between it fields that
stand for what is known about the record. A field is written `%(name)s`, with a least width
`%(name)8s` or, kept to the left, `%(name)-8s`; a percent sign is written `%%`. An empty
template stands for the message alone. A line takes the colour of its severity.
-/

namespace PagedServing.Logging

/-- All that is known about a record. -/
structure Entry where
  /-- The name of the logger. -/
  logger : String
  level : Int
  message : String
  /-- When the record was made. -/
  time : String := ""
  /-- The function that made it. -/
  function : String := ""
  /-- The line that made it. -/
  line : String := ""

/-- What is known under the name of a field. -/
def Entry.field? (e : Entry) : String → Option String
  | "name" => some e.logger
  | "levelname" => some (levelName e.level)
  | "levelno" => some (toString e.level)
  | "message" => some e.message
  | "asctime" => some e.time
  | "funcName" => some e.function
  | "lineno" => some e.line
  | _ => none

/-- How a field is fitted into a line. -/
structure Fit where
  width : Nat := 0
  /-- What a field that is too short is filled up with. -/
  fill : Char := ' '
  /-- Whether it is filled up behind instead of in front. -/
  left : Bool := false
  deriving Repr, DecidableEq

/-- Fill a text up to the width. -/
def Fit.apply (f : Fit) (s : String) : String :=
  let gap := String.ofList (List.replicate (f.width - s.length) f.fill)
  if f.left then s ++ gap else gap ++ s

/-- A piece of a template. -/
inductive Piece where
  | text (c : Char)
  | field (name : String) (fit : Fit)
  deriving Repr, DecidableEq

/-- A template. -/
abbrev Template := List Piece

/-- Why a template gives no line. -/
inductive TemplateRefusal where
  /-- A template without fields, or with a percent sign that stands for nothing. -/
  | malformed (template : String)
  /-- A field that records do not have. -/
  | unknownField (name : String)
  deriving Repr, DecidableEq

/-- The text of a refusal. -/
def TemplateRefusal.message : TemplateRefusal → String
  | malformed template => s!"Invalid format '{template}' for '%' style"
  | unknownField name => s!"Formatting field not found in record: {Text.quoted name}"

namespace Template

/-- What follows the first character behind a run is shorter than the whole. -/
theorem length_of_dropWhile {p : Char → Bool} {cs after : List Char} {c : Char}
    (h : cs.dropWhile p = c :: after) : after.length < cs.length := by
  have := (List.dropWhile_sublist p (l := cs)).length_le
  simp only [h, List.length_cons] at this
  omega

/-- Whether a character in front of the width says how a field is filled up. -/
def isFlag (c : Char) : Bool :=
  c = '-' || c = '0'

/-- The fit that flags and the digits of a width ask for. Only numbers are filled up with
    zeros, and only in front. -/
def fitOf (flags digits : List Char) (number : Bool) : Fit :=
  let left := flags.contains '-'
  { width := digits.foldl (fun n c => 10 * n + (c.toNat - '0'.toNat)) 0
    fill := if number && flags.contains '0' && !left then '0' else ' '
    left }

/-- The pieces of a template, as long as every percent sign stands for something. -/
def pieces? : List Char → Option Template
  | [] => some []
  | '%' :: '%' :: rest => (pieces? rest).map (.text '%' :: ·)
  | '%' :: '(' :: rest =>
    match h : rest.dropWhile (· ≠ ')') with
    | ')' :: shape =>
      match h' : (shape.dropWhile isFlag).dropWhile Char.isDigit with
      | kind :: after =>
        have : after.length < rest.length := by
          have := length_of_dropWhile h
          have := length_of_dropWhile h'
          have := (List.dropWhile_sublist isFlag (l := shape)).length_le
          omega
        if kind = 's' ∨ kind = 'd' then
          let digits := (shape.dropWhile isFlag).takeWhile Char.isDigit
          let fit := fitOf (shape.takeWhile isFlag) digits (kind = 'd')
          let name := String.ofList (rest.takeWhile (· ≠ ')'))
          (pieces? after).map (.field name fit :: ·)
        else none
      | [] => none
    | _ => none
  | '%' :: _ => none
  | c :: rest => (pieces? rest).map (.text c :: ·)
termination_by cs => cs.length

/-- Whether a piece is a field. -/
def isField : Piece → Bool
  | .field .. => true
  | .text _ => false

/-- The template of the message alone. -/
def messageOnly : String := "%(message)s"

/-- Read a template. -/
def parse (template : String) : Except TemplateRefusal Template :=
  let template := if template.isEmpty then messageOnly else template
  match pieces? template.toList with
  | some pieces => if pieces.any isField then .ok pieces else .error (.malformed template)
  | none => .error (.malformed template)

/-- Write one piece. -/
def renderPiece (e : Entry) : Piece → Except TemplateRefusal String
  | .text c => .ok (String.singleton c)
  | .field name fit =>
    match e.field? name with
    | some s => .ok (fit.apply s)
    | none => .error (.unknownField name)

/-- The line of a record, without colour. -/
def render (t : Template) (e : Entry) : Except TemplateRefusal String :=
  String.join <$> t.mapM (renderPiece e)

end Template

/-- The code that sets the style of a terminal. -/
def styleCode (n : Nat) : String :=
  "\x1b[" ++ toString n ++ "m"

/-- The codes that set the colour of a level. Only levels with a severity have one. -/
def colour (level : Int) : String :=
  match Severity.all.find? (·.level = level) with
  | some .debug => styleCode 92
  | some .info => styleCode 32
  | some .warning => styleCode 33
  | some .error => styleCode 31
  | some .critical => styleCode 31 ++ styleCode 1
  | none => ""

/-- A line in the colour of a level. -/
def coloured (level : Int) (line : String) : String :=
  colour level ++ line ++ styleCode 39

/-- The coloured line that a template gives for a record. -/
def format (template : String) (e : Entry) : Except TemplateRefusal String := do
  let t ← Template.parse template
  coloured e.level <$> t.render e

end PagedServing.Logging
