/-
The heads of the vocabulary: the words with which a path starts in predicate text, and the members
that they name together with a field after a dot.
-/
import ElementQuery.Path

namespace ElementQuery

/-- A word that starts a path of the vocabulary. -/
inductive Head where
  | targetName
  | position
  | text
  | attributes
  | parent
  | sibling (axis : SiblingAxis)
  | relative (axis : RelativeAxis)
  deriving DecidableEq, Repr

namespace Head

/-- All heads. -/
def all : List Head :=
  [targetName, position, text, attributes, parent, sibling .following, sibling .preceding,
   relative .descendant, relative .ancestor]

/-- The word for a head. -/
def word : Head → String
  | targetName => "TargetElementName"
  | position => "Position"
  | text => "Text"
  | attributes => "Attribute"
  | parent => "Parent"
  | sibling .following => "FollowingSibling"
  | sibling .preceding => "PrecedingSibling"
  | relative .descendant => "Descendant"
  | relative .ancestor => "Ancestor"

/-- The head that a word names. -/
def ofWord? (w : String) : Option Head := all.find? (·.word == w)

/-- The member that a head and a field after a dot name. -/
def field? : Head → String → Option Member
  | parent, "Name" => some (.name .parent)
  | parent, "Position" => some (.position .parent)
  | sibling axis, "Name" => some (.siblingName axis)
  | relative axis, "Name" => some (.relativeName axis)
  | _, _ => none

theorem ofWord?_word (h : Head) : ofWord? h.word = some h := by
  cases h with
  | sibling axis => cases axis <;> decide
  | relative axis => cases axis <;> decide
  | _ => decide

theorem ofWord?_eq_some_iff {w : String} {h : Head} : ofWord? w = some h ↔ w = h.word := by
  constructor
  · intro hw
    have := List.find?_some hw
    exact (beq_iff_eq.1 this).symm
  · rintro rfl
    exact ofWord?_word h

theorem ofWord?_eq_none_iff {w : String} : ofWord? w = none ↔ ∀ h : Head, w ≠ h.word := by
  rw [Option.eq_none_iff_forall_ne_some]
  exact forall_congr' fun h => not_congr ofWord?_eq_some_iff

end Head

end ElementQuery
