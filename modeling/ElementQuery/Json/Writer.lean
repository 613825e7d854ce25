/-
Writing JSON text, on one line without spaces or over several lines with an indent of two spaces
for each level.
-/
import ElementQuery.Json.Value

namespace ElementQuery.Json

/-- A control character by its code, in four hexadecimal digits. -/
def controlEscape (c : Char) : String :=
  let digits := Nat.toDigits 16 c.toNat
  "\\u" ++ String.ofList (List.replicate (4 - digits.length) '0' ++ digits)

/-- One character as it stands in a string. -/
def stringChar (c : Char) : String :=
  if c = '"' then "\\\""
  else if c = '\\' then "\\\\"
  else if c = '\x08' then "\\b"
  else if c = '\x0c' then "\\f"
  else if c = '\n' then "\\n"
  else if c = '\r' then "\\r"
  else if c = '\t' then "\\t"
  else if c.toNat < 0x20 then controlEscape c
  else c.toString

/-- A string between quotes. -/
def stringText (s : String) : String := "\"" ++ String.join (s.toList.map stringChar) ++ "\""

namespace Value

mutual
/-- A value on one line. -/
def compact : Value → String
  | null => "null"
  | bool b => if b then "true" else "false"
  | number n => n.text
  | string s => stringText s
  | array items => "[" ++ ",".intercalate (compactItems items) ++ "]"
  | object fields => "\x7b" ++ ",".intercalate (compactFields fields) ++ "\x7d"

/-- The items of an array, each on one line. -/
def compactItems : List Value → List String
  | [] => []
  | v :: vs => compact v :: compactItems vs

/-- The fields of an object, each on one line. -/
def compactFields : List (String × Value) → List String
  | [] => []
  | (name, v) :: vs => (stringText name ++ ":" ++ compact v) :: compactFields vs
end

/-- The start of a line at a level. -/
def lineStart (level : Nat) : String := "\n" ++ String.join (List.replicate level "  ")

/-- Parts between brackets, each on a line of its own. -/
def block (level : Nat) (opening closing : String) (parts : List String) : String :=
  if parts.isEmpty then opening ++ closing
  else
    let lines := parts.map (lineStart (level + 1) ++ ·)
    opening ++ ",".intercalate lines ++ lineStart level ++ closing

mutual
/-- A value over several lines, inside `level` brackets. -/
def prettyAt (level : Nat) : Value → String
  | array items => block level "[" "]" (prettyItems (level + 1) items)
  | object fields => block level "\x7b" "\x7d" (prettyFields (level + 1) fields)
  | v => compact v

/-- The items of an array, over several lines. -/
def prettyItems (level : Nat) : List Value → List String
  | [] => []
  | v :: vs => prettyAt level v :: prettyItems level vs

/-- The fields of an object, over several lines. -/
def prettyFields (level : Nat) : List (String × Value) → List String
  | [] => []
  | (name, v) :: vs => (stringText name ++ ": " ++ prettyAt level v) :: prettyFields level vs
end

/-- A value over several lines. -/
def pretty (v : Value) : String := prettyAt 0 v

end Value

end ElementQuery.Json
