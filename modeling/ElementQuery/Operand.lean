/-
Operands: what a node of a predicate tree comes to. A value of the caller is read and converted,
paths stay as they are, and a containment test or a comparison is kept as such; a connective, a
missing field or a value that is no scalar comes to nothing. `evaluate` reads values of the caller
alone, as JSON.
-/
import ElementQuery.Error
import ElementQuery.Expr.Display
import ElementQuery.Text.Strip

namespace ElementQuery

/-- What a node comes to. -/
inductive Operand where
  | value (l : Literal)
  | path (p : Path)
  | containment (subject : Path) (substring : Literal)
  | comparison (left right : Operand)
  deriving DecidableEq, Repr

/-- An operand as it is shown. -/
def Operand.display : Operand → String
  | value l => l.display
  | path p => p.display
  | containment p l => p.display ++ ".Contains(" ++ l.display ++ ")"
  | comparison l r => l.display ++ " == " ++ r.display

namespace Literal

/-- The truth value that a text names. -/
def readBool? (cs : List Char) : Option Bool :=
  if cs = "true".toList then some true
  else if cs = "false".toList then some false
  else none

/-- Converts a literal to a kind. A literal of that kind stays as it is, any literal has a text,
and a text is read without the white space at its ends. -/
def convert (kind : LiteralKind) (l : Literal) : Except Error Literal :=
  if l.kind = kind then .ok l
  else match kind, l with
    | .str, l => .ok (.str l.text)
    | .int, .str s =>
      match Text.readWord? (Text.trim s.toList) with
      | some i => .ok (.int i)
      | none => .error (.malformed .integerConversion s)
    | .bool, .str s =>
      match readBool? (Text.trim s.toList) with
      | some b => .ok (.bool b)
      | none => .error (.malformed .booleanConversion s)
    | .int, l => .error (.malformed .integerConversion l.text)
    | .bool, l => .error (.malformed .booleanConversion l.text)

end Literal

namespace Expr

/-- The JSON value of a node that holds a value of the caller. -/
def evaluate : Expr → Except Error (Option Json.Value)
  | literal l => .ok (some l.toJson)
  | captured _ v => .ok (some v)
  | call _ v => .ok (some v)
  | member e field => do return (← e.evaluate).bind (·.get? field)
  | convert kind e => do
    match (← e.evaluate).bind Literal.ofJson? with
    | some l => return some (← l.convert kind).toJson
    | none => return none
  | _ => .ok none

/-- What a node comes to, if anything. -/
def resolve : Expr → Except Error (Option Operand)
  | literal l => .ok (some (.value l))
  | path p => .ok (some (.path p))
  | contains p e => do
    match ← e.resolve with
    | some (.value l) => return some (.containment p l)
    | _ => return none
  | captured _ v => .ok ((Literal.ofJson? v).map .value)
  | call _ v => .ok ((Literal.ofJson? v).map .value)
  | member e field => do
    return ((← (member e field).evaluate).bind Literal.ofJson?).map .value
  | convert kind e => do
    match ← e.resolve with
    | some (.value l) => return some (.value (← l.convert kind))
    | _ => return none
  | eq l r => do
    match ← l.resolve, ← r.resolve with
    | some a, some b => return some (.comparison a b)
    | _, _ => return none
  | and _ _ => .ok none
  | or _ _ => .ok none
  | not _ => .ok none

end Expr

end ElementQuery
