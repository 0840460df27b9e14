import PagedServing.Text.Blank

/-! # Quoted text

A quoted text stands between two equal quotes and names every character that a reader
could not see. Single quotes are used, unless the text holds a single quote and no double
one. The quote used, the backslash, and the three line characters are escaped by a
backslash; other blank characters are named by their code point.
-/

namespace PagedServing.Text

/-- The quote marks that may enclose a text. -/
inductive Quote where
  | single
  | double
  deriving Repr, DecidableEq

/-- The mark itself. -/
def Quote.mark : Quote → Char
  | .single => Char.ofNat 0x27
  | .double => Char.ofNat 0x22

/-- Double marks are used exactly when they alone avoid an escape. -/
def Quote.choose (s : List Char) : Quote :=
  if Quote.single.mark ∈ s ∧ Quote.double.mark ∉ s then .double else .single

/-- The lower-case hexadecimal digits of `n`, at least `width` of them. -/
def hexDigits (width n : Nat) : List Char :=
  let digits := Nat.toDigits 16 n
  List.replicate (width - digits.length) '0' ++ digits

/-- A blank character, named by its code point in the shortest of three widths. -/
def nameBlank (c : Char) : List Char :=
  if c.toNat < 0x100 then '\\' :: 'x' :: hexDigits 2 c.toNat
  else if c.toNat < 0x10000 then '\\' :: 'u' :: hexDigits 4 c.toNat
  else '\\' :: 'U' :: hexDigits 8 c.toNat

/-- How one character is written between the marks `q`. -/
def escape (q : Quote) (c : Char) : List Char :=
  if c = q.mark ∨ c = '\\' then ['\\', c]
  else if c = '\n' then ['\\', 'n']
  else if c = '\r' then ['\\', 'r']
  else if c = '\t' then ['\\', 't']
  else if isBlank c then nameBlank c
  else [c]

/-- The text `s` in quotes. -/
def quoted (s : String) : String :=
  let q := Quote.choose s.toList
  String.ofList (q.mark :: s.toList.flatMap (escape q) ++ [q.mark])

end PagedServing.Text
