import PagedServing.Text.Quoted

/-! # Lists of words in a message -/

namespace PagedServing.Text

/-- The admissible words of a setting, quoted and in parentheses. -/
def choices (names : List String) : String :=
  "(" ++ ", ".intercalate (names.map quoted) ++ ")"

end PagedServing.Text
