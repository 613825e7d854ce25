/-
The condition of a leaf in closed form, by the path that it is about. The rules are tried in order
and look at leaves of several shapes each; here a leaf is given its one answer, which is the same
for the target and for its parent, and the rule that gives it.
-/
import ElementQuery.Condition

namespace ElementQuery

/-- The rule that answers leaves about a path. -/
def Path.rule : Path → Rule
  | .member (.name .target) => .targetName
  | .member (.position .target) => .position
  | .member (.text .target) | .attributeText ⟨.target, _⟩ => .attributes
  | .member (.siblingName _) => .siblings
  | .member (.relativeName _) => .relatives
  | _ => .parent

namespace Leaf

/-- The path that a leaf is about. -/
def path : Leaf → Path
  | equals p _ | contains p _ => p

/-- What a leaf says, if it is one that a rule recognises: every equality is, and a containment
test is if it is on a text or on an attribute. -/
def answer? : Leaf → Option (Except Error Condition)
  | equals (.member (.name owner)) l => some (l.elementName.map (.name owner))
  | equals (.member (.position owner)) l => some (l.position.map (.position owner))
  | equals (.member (.text owner)) l => some (.ok (.text owner (l.textTest .exact)))
  | equals (.member (.siblingName axis)) l =>
    some (l.elementName.map fun name => .sibling ⟨name, axis⟩)
  | equals (.member (.relativeName axis)) l =>
    some (l.elementName.map fun name => .relative ⟨name, axis⟩)
  | equals (.attributeText ⟨owner, name⟩) l => some (l.attributeTest .exact owner name)
  | contains (.attributeText ⟨owner, name⟩) l => some (l.attributeTest .contains owner name)
  | contains (.member (.text owner)) l => some (.ok (.text owner (l.textTest .contains)))
  | contains _ _ => none

/-! ## Rules in order -/

section

variable {leaf : Leaf}

/-- Rules that do not recognise a leaf are passed over. -/
theorem classifyBy_append {passed rules : List Rule}
    (h : passed.all (fun rule => (rule.answer leaf).isNone) = true) :
    leaf.classifyBy (passed ++ rules) = leaf.classifyBy rules := by
  induction passed with
  | nil => rfl
  | cons rule passed ih =>
    rw [List.all_cons, Bool.and_eq_true, Option.isNone_iff_eq_none] at h
    rw [List.cons_append, classifyBy, h.1]
    exact ih h.2

theorem classifyBy_cons {rule : Rule} {answer : Except Error Condition}
    (h : rule.answer leaf = some answer) (rules : List Rule) :
    leaf.classifyBy (rule :: rules) = answer.map fun c => some ⟨rule.name, c⟩ := by
  rw [classifyBy, h]
  cases answer <;> rfl

/-- The first rule that recognises a leaf gives the answer. -/
theorem classify_of_answer (passed : List Rule) {rule : Rule} {rules : List Rule}
    {answer : Except Error Condition} (hall : Rule.all = passed ++ rule :: rules)
    (hpassed : passed.all (fun rule => (rule.answer leaf).isNone) = true)
    (h : rule.answer leaf = some answer) :
    leaf.classify = answer.map fun c => some ⟨rule.name, c⟩ := by
  rw [classify, hall, classifyBy_append hpassed, classifyBy_cons h]

theorem classify_of_isNone (h : Rule.all.all (fun rule => (rule.answer leaf).isNone) = true) :
    leaf.classify = .ok none := by
  rw [classify, ← List.append_nil Rule.all, classifyBy_append h]
  rfl

end

/-- A leaf is classified by its path. -/
theorem classify_eq (leaf : Leaf) :
    leaf.classify = match leaf.answer? with
      | some answer => answer.map fun c => some ⟨leaf.path.rule.name, c⟩
      | none => .ok none := by
  cases leaf with
  | equals p l =>
    rcases p with ((_ | _) | (_ | _) | (_ | _) | axis | axis) | ⟨_ | _, name⟩
    · exact classify_of_answer [.parent] rfl rfl rfl
    · exact classify_of_answer [] rfl rfl rfl
    · exact classify_of_answer [.parent, .targetName, .attributes, .siblings] rfl rfl rfl
    · exact classify_of_answer [] rfl rfl rfl
    · exact classify_of_answer [.parent, .targetName] rfl rfl rfl
    · exact classify_of_answer [] rfl rfl rfl
    · exact classify_of_answer [.parent, .targetName, .attributes] rfl rfl rfl
    · exact classify_of_answer [.parent, .targetName, .attributes, .siblings, .position] rfl rfl rfl
    · exact classify_of_answer [.parent, .targetName] rfl rfl rfl
    · exact classify_of_answer [] rfl rfl rfl
  | contains p l =>
    rcases p with (owner | owner | (_ | _) | axis | axis) | ⟨_ | _, name⟩
    · exact classify_of_isNone rfl
    · exact classify_of_isNone rfl
    · exact classify_of_answer [.parent, .targetName] rfl rfl rfl
    · exact classify_of_answer [] rfl rfl rfl
    · exact classify_of_isNone rfl
    · exact classify_of_isNone rfl
    · exact classify_of_answer [.parent, .targetName] rfl rfl rfl
    · exact classify_of_answer [] rfl rfl rfl

end Leaf

end ElementQuery
