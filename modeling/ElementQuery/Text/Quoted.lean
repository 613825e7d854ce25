/-
Quoted text, for messages: a text between double quotes in which every character can be told
apart. Quotes, backslashes and the common controls have short escapes, a character that does not
show by itself is written by its code point, and all else stands for itself.
-/
import ElementQuery.Text.Printable

namespace ElementQuery.Text

/-- The code point of a character in braces, in lower-case hexadecimal. -/
def codeEscape (c : Char) : String :=
  "\\u\x7b" ++ String.ofList (Nat.toDigits 16 c.toNat) ++ "\x7d"

/-- One character as it stands between the quotes. -/
def quotedChar (c : Char) : String :=
  if c = '\x00' then "\\0"
  else if c = '\t' then "\\t"
  else if c = '\r' then "\\r"
  else if c = '\n' then "\\n"
  else if c = '\\' then "\\\\"
  else if c = '"' then "\\\""
  else if isPrintable c then c.toString
  else codeEscape c

/-- A text between double quotes, with every character told apart. -/
def quoted (s : String) : String := "\"" ++ String.join (s.toList.map quotedChar) ++ "\""

end ElementQuery.Text
