/-
Paths: what a predicate can speak about. A member is one of ten fixed properties of an element or
of its surroundings; a path is a member or the text of an attribute of the target or its parent.
Members have a dotted word, used in predicates, and a tag, used in JSON.
-/

namespace ElementQuery

/-- The element that a property belongs to. -/
inductive Owner where
  | target
  | parent
  deriving DecidableEq, Repr

namespace Owner

/-- The tag of an owner in JSON. -/
def tag : Owner → String
  | target => "target"
  | parent => "parent"

/-- The owner with a tag. -/
def ofTag? (t : String) : Option Owner := [target, parent].find? (·.tag == t)

/-- What stands before the property of an owner in a predicate. -/
def receiver : Owner → String
  | target => ""
  | parent => "Parent."

end Owner

/-- The side on which a sibling stands. -/
inductive SiblingAxis where
  | following
  | preceding
  deriving DecidableEq, Repr

/-- The direction in which a relative stands. -/
inductive RelativeAxis where
  | descendant
  | ancestor
  deriving DecidableEq, Repr

/-- A fixed property of an element or its surroundings. -/
inductive Member where
  | name (owner : Owner)
  | position (owner : Owner)
  | text (owner : Owner)
  | siblingName (axis : SiblingAxis)
  | relativeName (axis : RelativeAxis)
  deriving DecidableEq, Repr

namespace Member

/-- All members. -/
def all : List Member :=
  [name .target, position .target, text .target, name .parent, position .parent, text .parent,
   siblingName .following, siblingName .preceding, relativeName .descendant, relativeName .ancestor]

/-- The word for a member in a predicate. -/
def word : Member → String
  | name .target => "TargetElementName"
  | position .target => "Position"
  | text .target => "Text"
  | name .parent => "Parent.Name"
  | position .parent => "Parent.Position"
  | text .parent => "Parent.Text"
  | siblingName .following => "FollowingSibling.Name"
  | siblingName .preceding => "PrecedingSibling.Name"
  | relativeName .descendant => "Descendant.Name"
  | relativeName .ancestor => "Ancestor.Name"

/-- The member that a word names. -/
def ofWord? (w : String) : Option Member := all.find? (·.word == w)

/-- The tag of a member in JSON. -/
def tag : Member → String
  | name .target => "TargetElementName"
  | position .target => "Position"
  | text .target => "Text"
  | name .parent => "ParentName"
  | position .parent => "ParentPosition"
  | text .parent => "ParentText"
  | siblingName .following => "FollowingSiblingName"
  | siblingName .preceding => "PrecedingSiblingName"
  | relativeName .descendant => "DescendantName"
  | relativeName .ancestor => "AncestorName"

/-- The member with a tag. -/
def ofTag? (t : String) : Option Member := all.find? (·.tag == t)

theorem mem_all (m : Member) : m ∈ all := by
  cases m <;> rename_i x <;> cases x <;> decide

theorem ofWord?_word (m : Member) : ofWord? m.word = some m := by
  cases m <;> rename_i x <;> cases x <;> decide

theorem ofTag?_tag (m : Member) : ofTag? m.tag = some m := by
  cases m <;> rename_i x <;> cases x <;> decide

end Member

/-- An attribute of the target or of its parent. -/
structure AttributeRef where
  owner : Owner
  name : String
  deriving DecidableEq, Repr

/-- An attribute as it stands in a predicate. -/
def AttributeRef.display (a : AttributeRef) : String :=
  a.owner.receiver ++ "Attribute(\"" ++ a.name ++ "\")"

/-- What a predicate can speak about. -/
inductive Path where
  | member (m : Member)
  | attributeText (a : AttributeRef)
  deriving DecidableEq, Repr

/-- A path as it stands in a predicate. -/
def Path.display : Path → String
  | member m => m.word
  | attributeText a => a.display ++ ".Text"

end ElementQuery
