/-
The JSON form of queries, with the fields in a fixed order. A parent that is missing has no field;
anything else that is missing is null.
-/
import ElementQuery.Json.Value
import ElementQuery.Query.Basic

namespace ElementQuery

open Json (Value)

/-- The tag of a match kind. -/
def MatchKind.tag : MatchKind → String
  | exact => "exact"
  | contains => "contains"

/-- The JSON form of a text test. -/
def TextTest.toJson (t : TextTest) : Value :=
  .object [("value", .string t.value), ("kind", .string t.kind.tag)]

/-- The JSON form of an attribute test. -/
def Attribute.toJson (a : Attribute) : Value :=
  .object [("name", .string a.name), ("text", a.text.toJson)]

/-- The JSON form of a sibling. -/
def Sibling.toJson (s : Sibling) : Value :=
  .object [("name", .string s.name), ("preceding", .bool (s.axis == .preceding))]

/-- The JSON form of a relative. -/
def Relative.toJson (r : Relative) : Value :=
  .object [("name", .string r.name), ("descendant", .bool (r.axis == .descendant))]

/-- The JSON form of a position. -/
def Position.toJson (p : Position) : Value := .int (Int64.ofNat p.value)

namespace Step

/-- The name of a step, or null. -/
def nameJson (s : Step) : Value := (s.name.map Value.string).getD .null

/-- The attribute tests of a step. -/
def attributesJson (s : Step) : Value := .array (s.attributes.toList.map Attribute.toJson)

/-- The position of a step, or null. -/
def positionJson (s : Step) : Value := (s.position.map Position.toJson).getD .null

/-- The text test of a step, or null. -/
def textJson (s : Step) : Value := (s.text.map TextTest.toJson).getD .null

/-- The JSON form of a step. -/
def toJson (s : Step) : Value :=
  .object [("name", s.nameJson), ("attributes", s.attributesJson), ("position", s.positionJson),
    ("text", s.textJson)]

end Step

/-- The JSON form of a query. -/
def Query.toJson (q : Query) : Value :=
  .object ([("name", q.target.nameJson)] ++ (q.parent.map fun p => ("parent", p.toJson)).toList ++
    [("attributes", q.target.attributesJson), ("siblings", .array (q.siblings.map Sibling.toJson)),
     ("relatives", .array (q.relatives.map Relative.toJson)), ("position", q.target.positionJson),
     ("text", q.target.textJson)])

end ElementQuery
