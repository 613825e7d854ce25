/-
Conditions: what one conjunct says about a query. A conjunct that comes to a comparison of a path
with a value, or to a containment test, is a leaf; the rules, tried in order, say which condition
a leaf expresses. Names must not be empty and positions must be positive numbers of 32 bits, both
after the literal is cleaned.
-/
import ElementQuery.Operand
import ElementQuery.Query.Basic
import ElementQuery.Text.Clean

namespace ElementQuery

/-- A condition on a path. -/
inductive Leaf where
  | equals (path : Path) (value : Literal)
  | contains (subject : Path) (substring : Literal)
  deriving DecidableEq, Repr

/-- The condition that an operand is, with the path on either side of a comparison. -/
def Leaf.ofOperand? : Operand → Option Leaf
  | .comparison (.path p) (.value l) => some (.equals p l)
  | .comparison (.value l) (.path p) => some (.equals p l)
  | .containment p l => some (.contains p l)
  | _ => none

/-- What a conjunct says about a query. -/
inductive Condition where
  | name (owner : Owner) (name : String)
  | position (owner : Owner) (position : Position)
  | text (owner : Owner) (test : TextTest)
  | attributeTest (owner : Owner) (test : Attribute)
  | sibling (sibling : Sibling)
  | relative (relative : Relative)
  deriving DecidableEq, Repr

/-- Writes a condition into a query. A name, position or text takes the place of an earlier one,
an attribute test that of one with its name; siblings and relatives add up. -/
def Condition.apply (q : Query) : Condition → Query
  | name owner n => q.modifyStep (fun s => { s with name := some n }) owner
  | position owner p => q.modifyStep (fun s => { s with position := some p }) owner
  | text owner t => q.modifyStep (fun s => { s with text := some t }) owner
  | attributeTest owner a =>
    q.modifyStep (fun s => { s with attributes := s.attributes.insert a }) owner
  | sibling s => { q with siblings := q.siblings ++ [s] }
  | relative r => { q with relatives := q.relatives ++ [r] }

/-! ## Reading literals -/

/-- The element name that a literal gives. -/
def Literal.elementName (l : Literal) : Except Error String :=
  let name := Text.clean l.text
  if name.isEmpty then .error (.malformed .elementName l.text) else .ok name

/-- The attribute name that a text gives. -/
def attributeNameOf (text : String) : Except Error String :=
  let name := Text.clean text
  if name.isEmpty then .error (.malformed .attributeName text) else .ok name

/-- The number that a literal gives as a position. -/
def Literal.ordinal? : Literal → Option Nat
  | int i => i.toInt.toNat?
  | str s => Text.readNat? (Text.cleanChars s.toList)
  | bool _ => none

/-- The position that a literal gives. -/
def Literal.position (l : Literal) : Except Error Position :=
  match l.ordinal?.bind Position.ofNat? with
  | some p => .ok p
  | none => .error (.malformed .position l.text)

/-- The text test that a literal gives. -/
def Literal.textTest (l : Literal) (kind : MatchKind) : TextTest := ⟨Text.clean l.text, kind⟩

/-- The attribute test that an attribute name and a literal give. -/
def Literal.attributeTest (l : Literal) (kind : MatchKind) (owner : Owner) (name : String) :
    Except Error Condition := do
  return .attributeTest owner ⟨← attributeNameOf name, l.textTest kind⟩

/-! ## Rules -/

/-- A rule answers the leaves it recognises. -/
structure Rule where
  name : String
  answer : Leaf → Option (Except Error Condition)

namespace Rule

/-- Conditions on the parent. -/
def parent : Rule where
  name := "parent"
  answer
    | .equals (.member (.name .parent)) l => some (l.elementName.map (.name .parent))
    | .equals (.attributeText ⟨.parent, a⟩) l => some (l.attributeTest .exact .parent a)
    | .contains (.attributeText ⟨.parent, a⟩) l => some (l.attributeTest .contains .parent a)
    | .equals (.member (.position .parent)) l => some (l.position.map (.position .parent))
    | .equals (.member (.text .parent)) l => some (.ok (.text .parent (l.textTest .exact)))
    | .contains (.member (.text .parent)) l => some (.ok (.text .parent (l.textTest .contains)))
    | _ => none

/-- The name of the target. -/
def targetName : Rule where
  name := "target name"
  answer
    | .equals (.member (.name .target)) l => some (l.elementName.map (.name .target))
    | _ => none

/-- The attributes and the text of the target; the owner of the attribute is not looked at. -/
def attributes : Rule where
  name := "attribute"
  answer
    | .equals (.attributeText a) l => some (l.attributeTest .exact .target a.name)
    | .contains (.attributeText a) l => some (l.attributeTest .contains .target a.name)
    | .equals (.member (.text .target)) l => some (.ok (.text .target (l.textTest .exact)))
    | .contains (.member (.text .target)) l => some (.ok (.text .target (l.textTest .contains)))
    | _ => none

/-- The siblings of the target. -/
def siblings : Rule where
  name := "sibling"
  answer
    | .equals (.member (.siblingName axis)) l =>
      some (l.elementName.map fun name => .sibling ⟨name, axis⟩)
    | _ => none

/-- The position of the target. -/
def position : Rule where
  name := "position"
  answer
    | .equals (.member (.position .target)) l => some (l.position.map (.position .target))
    | _ => none

/-- The descendants and ancestors of the target. -/
def relatives : Rule where
  name := "relative"
  answer
    | .equals (.member (.relativeName axis)) l =>
      some (l.elementName.map fun name => .relative ⟨name, axis⟩)
    | _ => none

/-- The rules in the order in which they are tried. -/
def all : List Rule := [parent, targetName, attributes, siblings, position, relatives]

end Rule

/-- A condition and the name of the rule that found it. -/
structure Classified where
  rule : String
  condition : Condition
  deriving DecidableEq, Repr

namespace Leaf

/-- The answer of the first rule that recognises a leaf. -/
def classifyBy (leaf : Leaf) : List Rule → Except Error (Option Classified)
  | [] => .ok none
  | rule :: rules =>
    match rule.answer leaf with
    | some (.ok condition) => .ok (some ⟨rule.name, condition⟩)
    | some (.error e) => .error e
    | none => leaf.classifyBy rules

/-- The condition that a leaf expresses, if a rule recognises it. -/
def classify (leaf : Leaf) : Except Error (Option Classified) := leaf.classifyBy Rule.all

end Leaf

/-- The condition that a conjunct expresses, if it comes to a leaf that a rule recognises. -/
def Expr.classify (conjunct : Expr) : Except Error (Option Classified) := do
  match (← conjunct.resolve).bind Leaf.ofOperand? with
  | some leaf => leaf.classify
  | none => return none

end ElementQuery
