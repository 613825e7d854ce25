/-
What the log says about conditions and walks.
-/
import ElementQuery.Log
import ElementQuery.Walk

namespace ElementQuery

/-- The tag of a condition, which names its owner, slot and kind of match. -/
def Condition.tag : Condition → String
  | name .target _ => "TargetName"
  | name .parent _ => "ParentName"
  | position .target _ => "TargetPosition"
  | position .parent _ => "ParentPosition"
  | text .target _ => "TargetText"
  | text .parent _ => "ParentText"
  | attributeTest owner a =>
    (match owner with
      | .target => ""
      | .parent => "Parent") ++ "Attribute" ++
    (match a.text.kind with
      | .exact => "Exact"
      | .contains => "Contains")
  | sibling ⟨_, .following⟩ => "SiblingFollowing"
  | sibling ⟨_, .preceding⟩ => "SiblingPreceding"
  | relative ⟨_, .descendant⟩ => "Descendant"
  | relative ⟨_, .ancestor⟩ => "Ancestor"

/-- A value between parentheses. -/
def inParens (s : String) : String := "(" ++ s ++ ")"

/-- Two named values between braces. -/
def inBraces (first a second b : String) : String :=
  " \x7b " ++ first ++ ": " ++ a ++ ", " ++ second ++ ": " ++ b ++ " \x7d"

/-- A text test in the log. -/
def TextTest.describe (t : TextTest) : String :=
  "TextConstraint" ++ inBraces "value" (Text.quoted t.value) "kind"
    (match t.kind with
      | .exact => "Exact"
      | .contains => "Contains")

/-- What a condition carries, in the log. -/
def Condition.payload : Condition → String
  | name _ n => inParens (Text.quoted n)
  | position _ p => inParens (toString p.value)
  | text _ t => inParens t.describe
  | attributeTest _ a =>
    inBraces "name" (Text.quoted a.name)
      (match a.text.kind with
        | .exact => "value"
        | .contains => "substring")
      (Text.quoted a.text.value)
  | sibling s => inParens (Text.quoted s.name)
  | relative r => inParens (Text.quoted r.name)

/-- A condition in the log. -/
def Condition.describe (c : Condition) : String := c.tag ++ c.payload

/-- The entry of a visit: the rule that answered, or that the conjunct is skipped. -/
def Visit.entry (v : Visit) : Entry :=
  match v.found with
  | some found => ⟨.debug, "wherepath_core::classify",
      found.rule ++ " rule: " ++ found.condition.describe⟩
  | none => ⟨.debug, "wherepath_core::walker",
      "skipping unrecognised condition `" ++ v.conjunct.display ++ "`"⟩

end ElementQuery
