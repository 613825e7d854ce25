/-
The location path of a query: `//parent[tests]/target[tests]`. The tests of a step are those on
its attributes, then the one on its text, then for the target those for siblings and relatives,
then the one on its position, joined by "and". Names and texts are written as they are.
-/
import ElementQuery.Query.Basic

namespace ElementQuery

/-- A test on a text that an expression yields. -/
def TextTest.xpath (subject : String) (t : TextTest) : String :=
  match t.kind with
  | .exact => subject ++ "='" ++ t.value ++ "'"
  | .contains => "contains(" ++ subject ++ ",'" ++ t.value ++ "')"

/-- A test on an attribute. -/
def Attribute.xpath (a : Attribute) : String := a.text.xpath ("@" ++ a.name)

/-- A test on a position. -/
def Position.xpath (p : Position) : String := "position()=" ++ toString p.value

/-- The name of a sibling axis. -/
def SiblingAxis.word : SiblingAxis → String
  | following => "following-sibling"
  | preceding => "preceding-sibling"

/-- The name of a relative axis. -/
def RelativeAxis.word : RelativeAxis → String
  | descendant => "descendant"
  | ancestor => "ancestor"

/-- A test for a sibling. -/
def Sibling.xpath (s : Sibling) : String := s.axis.word ++ "::" ++ s.name

/-- A test for a relative. -/
def Relative.xpath (r : Relative) : String := r.axis.word ++ "::" ++ r.name

namespace Step

/-- The tests of a step, with those for its surroundings before the one on its position. -/
def tests (s : Step) (surroundings : List String) : List String :=
  s.attributes.toList.map Attribute.xpath ++ (s.text.map (TextTest.xpath "text()")).toList ++
    surroundings ++ (s.position.map Position.xpath).toList

/-- A name, or a star for any name, and the tests in brackets if there are any. -/
def xpathOf (name : Option String) (tests : List String) : String :=
  name.getD "*" ++ if tests.isEmpty then "" else "[" ++ " and ".intercalate tests ++ "]"

/-- A step with the tests for its surroundings. -/
def xpath (s : Step) (surroundings : List String) : String := xpathOf s.name (s.tests surroundings)

end Step

namespace Query

/-- The tests for the siblings and relatives of the target. -/
def surroundings (q : Query) : List String :=
  q.siblings.map Sibling.xpath ++ q.relatives.map Relative.xpath

/-- The location path of a query. -/
def xpath (q : Query) : String :=
  "//" ++ (match q.parent with
    | some p => p.xpath [] ++ "/"
    | none => "") ++ q.target.xpath q.surroundings

end Query

end ElementQuery
