/-
Literals: the scalar values that a predicate compares with. A literal is a truth value, a 64-bit
integer or a text, and each has a text form in which it enters a query. A JSON value stands for a
literal if it is a scalar; a number that is no 64-bit integer stands for its text.
-/
import ElementQuery.Json.Document

namespace ElementQuery

/-- The kinds of literals, which are also the targets of conversions. -/
inductive LiteralKind where
  | bool
  | int
  | str
  deriving DecidableEq, Repr

namespace LiteralKind

/-- All kinds. -/
def all : List LiteralKind := [bool, int, str]

/-- The word for a kind. -/
def word : LiteralKind → String
  | bool => "bool"
  | int => "int"
  | str => "string"

/-- The kind that a word names. -/
def ofWord? (w : String) : Option LiteralKind := all.find? (·.word == w)

theorem ofWord?_word (k : LiteralKind) : ofWord? k.word = some k := by cases k <;> decide

theorem ofWord?_eq_some_iff {w : String} {k : LiteralKind} : ofWord? w = some k ↔ w = k.word := by
  constructor
  · intro hw
    have := List.find?_some hw
    exact (beq_iff_eq.1 this).symm
  · rintro rfl
    exact ofWord?_word k

theorem ofWord?_eq_none_iff {w : String} :
    ofWord? w = none ↔ ∀ k : LiteralKind, w ≠ k.word := by
  rw [Option.eq_none_iff_forall_ne_some]
  exact forall_congr' fun k => not_congr ofWord?_eq_some_iff

end LiteralKind

/-- A scalar value. -/
inductive Literal where
  | bool (b : Bool)
  | int (i : Int64)
  | str (s : String)
  deriving DecidableEq, Repr

namespace Literal

/-- The text form in which a literal enters a query. -/
def text : Literal → String
  | bool b => if b then "true" else "false"
  | int i => Text.ofWord i
  | str s => s

/-- The kind of a literal. -/
def kind : Literal → LiteralKind
  | bool _ => .bool
  | int _ => .int
  | str _ => .str

/-- A literal as it stands in a predicate, a text between double quotes. -/
def display : Literal → String
  | str s => "\"" ++ s ++ "\""
  | l => l.text

/-- The JSON form of a literal. -/
def toJson : Literal → Json.Value
  | bool b => .bool b
  | int i => .int i
  | str s => .string s

/-- The literal that a number stands for: a word is an integer, any other number its text. -/
def ofNumber : Json.Number → Literal
  | .int i => int i
  | n => str n.text

/-- The literal that a JSON value stands for, if the value is a scalar. -/
def ofJson? : Json.Value → Option Literal
  | .bool b => some (bool b)
  | .number n => some (ofNumber n)
  | .string s => some (str s)
  | _ => none

/-- Reads the JSON form of a literal, where a number has to be a word. -/
def ofDocument? : Json.Document → Option Literal
  | .bool b => some (bool b)
  | .number (some (.int i)) => some (int i)
  | .string (some s) => some (str s)
  | _ => none

theorem ofJson?_toJson (l : Literal) : ofJson? l.toJson = some l := by cases l <;> rfl

theorem ofDocument?_toJson (l : Literal) : ofDocument? l.toJson.toDocument = some l := by
  cases l <;> rfl

end Literal

end ElementQuery
