/-
Cleaned literals. What is left of quoting around a literal is taken off in layers: white space,
then closing parentheses, then backslashes, then double quotes, each at both ends and only once.
-/
import ElementQuery.Text.Strip

namespace ElementQuery.Text

/-- A text without the layers around it. -/
def cleanChars (cs : List Char) : List Char :=
  strip (· == '"') (strip (· == '\\') (strip (· == ')') (trim cs)))

/-- A text without the layers around it. -/
def clean (s : String) : String := String.ofList (cleanChars s.toList)

end ElementQuery.Text
