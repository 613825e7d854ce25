/-
The JSON form of predicate trees. A node is an object with one field, named for its constructor.
Operators hold the array of their two operands; a node with named parts holds an object with a
field for each, or the array of the parts in order. A name from a fixed set is a string, or an
object with that one field holding null. Unknown fields of an object are passed over unread.
-/
import ElementQuery.Expr.Basic
import ElementQuery.Json.Reader

namespace ElementQuery

namespace Json.Document

/-- The document of the only field with a name, if the name occurs once. -/
def onlyField? (fields : List (Option String × Document)) (name : String) : Option Document :=
  match fields.filter (·.1 == some name) with
  | [(_, d)] => some d
  | _ => none

/-- The named parts of a node, given as an array or as an object in which each name occurs once
and every name can be read. -/
def parts? (names : List String) : Document → Option (List Document)
  | array items => if items.length = names.length then some items else none
  | object fields =>
    if fields.all (·.1.isSome) then names.mapM (onlyField? fields) else none
  | _ => none

/-- A name from a fixed set, inside at most `limit` further brackets. -/
def name? (limit : Nat) : Document → Option String
  | string s => s
  | object [(name, null)] => if 0 < limit then name else none
  | _ => none

/-- A string that can be read. -/
def text? : Document → Option String
  | string s => s
  | _ => none

end Json.Document

open Json (Document Value)

namespace Path

/-- The JSON form of a path. -/
def toJson : Path → Value
  | member m => .object [("member", .string m.tag)]
  | attributeText a => .object [("attribute_text",
      .object [("owner", .string a.owner.tag), ("name", .string a.name)])]

/-- Reads the JSON form of a path inside at most `limit` brackets. -/
def ofDocument? : Nat → Document → Option Path
  | limit + 1, .object [(some "member", d)] => do
    return member (← Member.ofTag? (← d.name? limit))
  | limit + 2, .object [(some "attribute_text", d)] => do
    match ← d.parts? ["owner", "name"] with
    | [owner, name] => return attributeText ⟨← Owner.ofTag? (← owner.name? limit), ← name.text?⟩
    | _ => none
  | _, _ => none

/-- Reads a path from a JSON text. -/
def ofText? (text : String) : Option Path :=
  (Document.ofText? text).bind (ofDocument? Json.nestingLimit)

/-- Reads a path from a JSON value. -/
def ofJson? (v : Value) : Option Path := ofDocument? v.nesting v.toDocument

end Path

namespace Expr

/-- The JSON form of a tree. -/
def toJson : Expr → Value
  | and l r => .object [("and", .array [l.toJson, r.toJson])]
  | or l r => .object [("or", .array [l.toJson, r.toJson])]
  | not e => .object [("not", e.toJson)]
  | eq l r => .object [("eq", .array [l.toJson, r.toJson])]
  | contains p e => .object [("contains", .object [("subject", p.toJson), ("substring", e.toJson)])]
  | literal l => .object [("literal", l.toJson)]
  | path p => .object [("path", p.toJson)]
  | captured x v => .object [("captured", .object [("name", .string x), ("value", v)])]
  | call f v => .object [("call", .object [("function", .string f), ("result", v)])]
  | member e f => .object [("member", .object [("object", e.toJson), ("field", .string f)])]
  | convert k e => .object [("convert", .object [("to", .string k.word), ("operand", e.toJson)])]

/-- The two operands of an operator. -/
def operands? : Document → Option (Document × Document)
  | .array [a, b] => some (a, b)
  | _ => none

/-- The two parts of a node with named parts. -/
def twoParts? (first second : String) (d : Document) : Option (Document × Document) :=
  match d.parts? [first, second] with
  | some [a, b] => some (a, b)
  | _ => none

/-- Reads the JSON form of a tree inside at most `limit` brackets. -/
def ofDocument? : Nat → Document → Option Expr
  | limit + 1, .object [(some "not", d)] => return not (← ofDocument? limit d)
  | _ + 1, .object [(some "literal", d)] => return literal (← Literal.ofDocument? d)
  | limit + 1, .object [(some "path", d)] => return path (← Path.ofDocument? limit d)
  | limit + 2, .object [(some tag, d)] =>
    match tag with
    | "and" => do
      let (l, r) ← operands? d
      return and (← ofDocument? limit l) (← ofDocument? limit r)
    | "or" => do
      let (l, r) ← operands? d
      return or (← ofDocument? limit l) (← ofDocument? limit r)
    | "eq" => do
      let (l, r) ← operands? d
      return eq (← ofDocument? limit l) (← ofDocument? limit r)
    | "contains" => do
      let (p, e) ← twoParts? "subject" "substring" d
      return contains (← Path.ofDocument? limit p) (← ofDocument? limit e)
    | "captured" => do
      let (x, v) ← twoParts? "name" "value" d
      return captured (← x.text?) (← v.value? limit)
    | "call" => do
      let (f, v) ← twoParts? "function" "result" d
      return call (← f.text?) (← v.value? limit)
    | "member" => do
      let (e, f) ← twoParts? "object" "field" d
      return member (← ofDocument? limit e) (← f.text?)
    | "convert" => do
      let (k, e) ← twoParts? "to" "operand" d
      return convert (← LiteralKind.ofWord? (← k.name? limit)) (← ofDocument? limit e)
    | _ => none
  | _, _ => none

/-- Reads a tree from a JSON text. -/
def ofText? (text : String) : Option Expr :=
  (Document.ofText? text).bind (ofDocument? Json.nestingLimit)

/-- Reads a tree from a JSON value. -/
def ofJson? (v : Value) : Option Expr := ofDocument? v.nesting v.toDocument

end Expr

end ElementQuery
