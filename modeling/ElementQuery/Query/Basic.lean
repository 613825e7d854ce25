/-
Queries: flat descriptions of the elements that a location path selects. A step describes one
element by its name, attributes, position and text; a query has a step for the target, perhaps one
for its parent, and the siblings and relatives that the target must have. A parent step comes into
being when something is first said about it.
-/
import ElementQuery.Path
import ElementQuery.Rows

namespace ElementQuery

/-- How a text is matched. -/
inductive MatchKind where
  | exact
  | contains
  deriving DecidableEq, Repr

/-- A text and how it is matched. -/
structure TextTest where
  value : String
  kind : MatchKind
  deriving DecidableEq, Repr

/-- A test on the value of an attribute. -/
structure Attribute where
  name : String
  text : TextTest
  deriving DecidableEq, Repr

/-- Attribute tests with distinct names, in the order in which the names were first inserted. -/
structure AttributeSet where
  toList : List Attribute
  distinct : (toList.map Attribute.name).Nodup
  deriving DecidableEq

namespace AttributeSet

/-- No tests. -/
def empty : AttributeSet := ⟨[], by simp⟩

instance : Inhabited AttributeSet := ⟨empty⟩

/-- Inserts a test, in the place of one with its name if there is one. -/
def insert (set : AttributeSet) (a : Attribute) : AttributeSet where
  toList := Rows.put Attribute.name a set.toList
  distinct := by
    rw [Rows.map_put]
    split
    · exact set.distinct
    · rename_i h
      exact List.nodup_append.2 ⟨set.distinct, by simp, fun x hx y hy e =>
        h (by simp only [List.mem_singleton] at hy; exact hy ▸ e ▸ hx)⟩

/-- Whether there are no tests. -/
def isEmpty (set : AttributeSet) : Bool := set.toList.isEmpty

@[ext] theorem ext {s t : AttributeSet} (h : s.toList = t.toList) : s = t := by
  cases s; cases t; cases h; rfl

@[simp] theorem toList_empty : empty.toList = [] := rfl

@[simp] theorem toList_insert (set : AttributeSet) (a : Attribute) :
    (set.insert a).toList = Rows.put Attribute.name a set.toList := rfl

end AttributeSet

/-- A position: a positive number of 32 bits, counted from one. -/
structure Position where
  value : Nat
  pos : 0 < value
  small : value < UInt32.size
  deriving DecidableEq, Repr

/-- The position of a number, if it is one. -/
def Position.ofNat? (n : Nat) : Option Position :=
  if h : 0 < n ∧ n < UInt32.size then some ⟨n, h.1, h.2⟩ else none

/-- A sibling that the target must have. -/
structure Sibling where
  name : String
  axis : SiblingAxis
  deriving DecidableEq, Repr

/-- A descendant or ancestor that the target must have. -/
structure Relative where
  name : String
  axis : RelativeAxis
  deriving DecidableEq, Repr

/-- The description of one element. -/
@[ext] structure Step where
  name : Option String
  attributes : AttributeSet
  position : Option Position
  text : Option TextTest
  deriving DecidableEq

namespace Step

/-- A step about which nothing is said. -/
def empty : Step := ⟨none, .empty, none, none⟩

/-- Whether a step has tests besides its name. -/
def hasTests (s : Step) : Bool := !s.attributes.isEmpty || s.position.isSome || s.text.isSome

end Step

/-- The description of the elements that a location path selects. -/
structure Query where
  target : Step
  parent : Option Step
  siblings : List Sibling
  relatives : List Relative
  deriving DecidableEq

namespace Query

/-- The query that selects every element. -/
def empty : Query := ⟨.empty, none, [], []⟩

instance : Inhabited Query := ⟨empty⟩

/-- Whether the target step has tests besides its name. -/
def hasTests (q : Query) : Bool := q.target.hasTests || !q.siblings.isEmpty || !q.relatives.isEmpty

/-- Changes the step of an owner; a parent step that is missing starts empty. -/
def modifyStep (q : Query) (f : Step → Step) : Owner → Query
  | .target => { q with target := f q.target }
  | .parent => { q with parent := some (f (q.parent.getD .empty)) }

end Query

end ElementQuery
