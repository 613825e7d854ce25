/-
The query that a walk leaves, slot by slot. Of the conditions written into one slot of a step the
last stays; siblings and relatives add up in the order of the visits; an attribute keeps the place
at which its name first came and has the test that came last; a parent step is there if it was
there before or if a condition speaks about the parent.

Each slot is followed on its own: one law says what a condition does to it, and a fold of that law
says what any number of conditions do, in whatever order they come.
-/
import ElementQuery.Proofs.Rows
import ElementQuery.Proofs.Walk.Fold

namespace ElementQuery

/-! ## What a condition says about a slot -/

namespace Condition

/-- The step that a condition speaks about, if it speaks about one. -/
def owner? : Condition → Option Owner
  | name owner _ | position owner _ | text owner _ | attributeTest owner _ => some owner
  | sibling _ | relative _ => none

/-- What a condition does to the step that it speaks about. -/
def change : Condition → Step → Step
  | name _ n, s => { s with name := some n }
  | position _ p, s => { s with position := some p }
  | text _ t, s => { s with text := some t }
  | attributeTest _ a, s => { s with attributes := s.attributes.insert a }
  | sibling _, s | relative _, s => s

/-- The name that a condition gives to the step of an owner. -/
def name? (owner : Owner) : Condition → Option String
  | name o n => if o = owner then some n else none
  | _ => none

/-- The position that a condition gives to the step of an owner. -/
def position? (owner : Owner) : Condition → Option Position
  | position o p => if o = owner then some p else none
  | _ => none

/-- The text test that a condition gives to the step of an owner. -/
def text? (owner : Owner) : Condition → Option TextTest
  | text o t => if o = owner then some t else none
  | _ => none

/-- The attribute test that a condition gives to the step of an owner. -/
def attribute? (owner : Owner) : Condition → Option Attribute
  | attributeTest o a => if o = owner then some a else none
  | _ => none

/-- The sibling that a condition asks for. -/
def sibling? : Condition → Option Sibling
  | sibling s => some s
  | _ => none

/-- The relative that a condition asks for. -/
def relative? : Condition → Option Relative
  | relative r => some r
  | _ => none

end Condition

namespace AttributeSet

/-- The names of the attributes, in order. -/
def names (set : AttributeSet) : List String := set.toList.map Attribute.name

/-- The test on the attribute with a name. -/
def find? (set : AttributeSet) (name : String) : Option Attribute :=
  set.toList.find? fun a => a.name = name

end AttributeSet

/-- The step of an owner, empty if nothing was said about it. -/
def Query.step (q : Query) : Owner → Step
  | .target => q.target
  | .parent => q.parent.getD .empty

/-! ## One condition -/

namespace Query

variable (q : Query) (f : Step → Step) (o o' : Owner)

theorem step_modifyStep :
    (q.modifyStep f o).step o' = if o = o' then f (q.step o') else q.step o' := by
  cases o <;> cases o' <;> rfl

@[simp] theorem siblings_modifyStep : (q.modifyStep f o).siblings = q.siblings := by
  cases o <;> rfl

@[simp] theorem relatives_modifyStep : (q.modifyStep f o).relatives = q.relatives := by
  cases o <;> rfl

theorem parent_modifyStep_eq_none :
    (q.modifyStep f o).parent = none ↔ q.parent = none ∧ o ≠ .parent := by
  cases o <;> simp [modifyStep]

end Query

namespace Condition

variable (c : Condition) (q : Query) (o : Owner)

/-- A condition changes the step that it speaks about and no other. -/
theorem step_apply :
    (c.apply q).step o = if c.owner? = some o then c.change (q.step o) else q.step o := by
  cases c with
  | sibling | relative => cases o <;> rfl
  | _ => simp only [apply, owner?, Option.some.injEq, Query.step_modifyStep, change]

theorem name_apply : ((c.apply q).step o).name = (c.name? o).or (q.step o).name := by
  rw [step_apply]
  cases c with
  | sibling | relative => rfl
  | _ =>
    simp only [owner?, name?, change, Option.some.injEq]
    split <;> rfl

theorem position_apply : ((c.apply q).step o).position = (c.position? o).or (q.step o).position := by
  rw [step_apply]
  cases c with
  | sibling | relative => rfl
  | _ =>
    simp only [owner?, position?, change, Option.some.injEq]
    split <;> rfl

theorem text_apply : ((c.apply q).step o).text = (c.text? o).or (q.step o).text := by
  rw [step_apply]
  cases c with
  | sibling | relative => rfl
  | _ =>
    simp only [owner?, text?, change, Option.some.injEq]
    split <;> rfl

theorem attributes_apply :
    ((c.apply q).step o).attributes.toList =
      Rows.putAll Attribute.name (q.step o).attributes.toList (c.attribute? o).toList := by
  rw [step_apply]
  cases c with
  | sibling | relative => rfl
  | _ =>
    simp only [owner?, attribute?, change, Option.some.injEq]
    split <;> rfl

theorem siblings_apply : (c.apply q).siblings = q.siblings ++ c.sibling?.toList := by
  cases c <;> simp [apply, sibling?]

theorem relatives_apply : (c.apply q).relatives = q.relatives ++ c.relative?.toList := by
  cases c <;> simp [apply, relative?]

theorem parent_apply_eq_none :
    (c.apply q).parent = none ↔ q.parent = none ∧ c.owner? ≠ some .parent := by
  cases c <;> simp [apply, owner?, Query.parent_modifyStep_eq_none]

end Condition

/-! ## Any number of conditions -/

section Folds

variable {σ α β : Type} {f : σ → β → σ}

/-- A slot in which a value takes the place of an earlier one holds the last value. -/
theorem foldl_last (get : σ → Option α) (pick : β → Option α)
    (h : ∀ s b, get (f s b) = (pick b).or (get s)) (bs : List β) (s : σ) :
    get (bs.foldl f s) = (bs.filterMap pick).getLast?.or (get s) := by
  induction bs generalizing s with
  | nil => simp
  | cons b bs ih =>
    rw [List.foldl_cons, ih, h, ← Option.or_assoc]
    -- what `b` gives stays only if nothing after it gives a value
    congr 1
    cases hb : pick b with
    | none => simp [hb]
    | some a =>
      rw [List.filterMap_cons_some hb, List.getLast?_cons]
      cases (bs.filterMap pick).getLast? <;> rfl

/-- A slot in which values add up holds them all in order. -/
theorem foldl_concat (get : σ → List α) (pick : β → Option α)
    (h : ∀ s b, get (f s b) = get s ++ (pick b).toList) (bs : List β) (s : σ) :
    get (bs.foldl f s) = get s ++ bs.filterMap pick := by
  induction bs generalizing s with
  | nil => simp
  | cons b bs ih =>
    rw [List.foldl_cons, ih, h, List.append_assoc]
    cases hb : pick b <;> simp [hb]

end Folds

/-- Writes conditions into a query, one after another. -/
def Query.applyAll (q : Query) (cs : List Condition) : Query := cs.foldl Condition.apply q

namespace Query

variable (q : Query) (cs : List Condition) (o : Owner)

theorem attributes_applyAll :
    ((q.applyAll cs).step o).attributes.toList =
      Rows.putAll Attribute.name (q.step o).attributes.toList
        (cs.filterMap (Condition.attribute? o)) := by
  induction cs generalizing q with
  | nil => rfl
  | cons c cs ih =>
    rw [applyAll, List.foldl_cons]
    refine (ih (c.apply q)).trans ?_
    rw [Condition.attributes_apply]
    cases hc : c.attribute? o <;> simp [hc]

theorem parent_applyAll_eq_none :
    (q.applyAll cs).parent = none ↔ q.parent = none ∧ ∀ c ∈ cs, c.owner? ≠ some .parent := by
  induction cs generalizing q with
  | nil => simp [applyAll]
  | cons c cs ih =>
    rw [applyAll, List.foldl_cons]
    refine (ih (c.apply q)).trans ?_
    rw [Condition.parent_apply_eq_none, List.forall_mem_cons, and_assoc]

end Query

/-- The step of an owner after conditions, by its step before them. -/
structure Step.Updated (before after : Step) (owner : Owner) (cs : List Condition) : Prop where
  name : after.name = (cs.filterMap (Condition.name? owner)).getLast?.or before.name
  position : after.position = (cs.filterMap (Condition.position? owner)).getLast?.or before.position
  text : after.text = (cs.filterMap (Condition.text? owner)).getLast?.or before.text
  attributeNames : after.attributes.names = before.attributes.names ++
    (((cs.filterMap (Condition.attribute? owner)).map Attribute.name).removeAll
      before.attributes.names).eraseDups
  attributeTests : ∀ n, after.attributes.find? n =
    ((cs.filterMap (Condition.attribute? owner)).reverse.find? fun a => a.name = n).or
      (before.attributes.find? n)

theorem Query.updated_applyAll (q : Query) (cs : List Condition) (o : Owner) :
    (q.step o).Updated ((q.applyAll cs).step o) o cs where
  name := foldl_last (fun q => (q.step o).name) _ (fun q c => c.name_apply q o) cs q
  position := foldl_last (fun q => (q.step o).position) _ (fun q c => c.position_apply q o) cs q
  text := foldl_last (fun q => (q.step o).text) _ (fun q c => c.text_apply q o) cs q
  attributeNames := by
    unfold AttributeSet.names
    rw [attributes_applyAll, Rows.map_putAll]
  attributeTests n := by
    unfold AttributeSet.find?
    rw [attributes_applyAll, Rows.find?_putAll]

/-! ## Walks -/

namespace Expr

/-- The condition that a conjunct expresses, if it expresses one. -/
def condition? (conjunct : Expr) : Option Condition :=
  match conjunct.classify with
  | .ok (some found) => some found.condition
  | _ => none

/-- The conditions of a conjunction in the order in which they are visited, the rightmost first. -/
def conditions (e : Expr) : List Condition := e.conjuncts.reverse.filterMap condition?

/-- A visit that succeeds finds the condition of its conjunct. -/
theorem condition?_of_visit {strict : Bool} {c : Expr} {found : Option Classified}
    (h : c.visit strict = .ok found) : c.condition? = found.map Classified.condition := by
  unfold visit at h
  unfold condition?
  split at h
  · rename_i hc
    cases strict with
    | true => cases h
    | false =>
      cases h
      rw [hc]
      rfl
  · rw [h]
    cases found <;> rfl

theorem writeAll_eq_applyAll {strict : Bool} (q : Query) (visits : List Visit)
    (h : ∀ v ∈ visits, v.conjunct.visit strict = .ok v.found) :
    q.writeAll visits = q.applyAll ((visits.map Visit.conjunct).filterMap condition?) := by
  induction visits generalizing q with
  | nil => rfl
  | cons v visits ih =>
    rw [List.forall_mem_cons] at h
    rw [Query.writeAll_cons, ih _ h.2, List.map_cons]
    have hv := condition?_of_visit h.1
    cases hf : v.found with
    | none =>
      rw [hf] at hv
      rw [List.filterMap_cons_none hv]
      rfl
    | some found =>
      rw [hf] at hv
      rw [List.filterMap_cons_some hv]
      rfl

/-- A walk that succeeds has written the conditions of the conjunction in order. -/
theorem query_walk {strict : Bool} {e : Expr} {q : Query} (h : (e.walk strict q).result = .ok ()) :
    (e.walk strict q).query = q.applyAll e.conditions := by
  rw [walk_eq_visitAll] at h ⊢
  obtain ⟨visits, hvisits, ⟨hcs, hw⟩ | ⟨c, rest, err, -, -, hw⟩⟩ :=
    visitAll_cases strict e.conjuncts.reverse q
  · rw [hw, conditions, ← hcs]
    exact writeAll_eq_applyAll q visits hvisits
  · rw [hw] at h
    cases h

/-- The query after a walk that succeeds, slot by slot, from the query before it and the conditions
in the order of the visits. The steps of the target and of the parent are updated alike; a parent
step that was not there starts empty. -/
theorem query_walk_slots {strict : Bool} {e : Expr} {q : Query}
    (h : (e.walk strict q).result = .ok ()) :
    q.target.Updated (e.walk strict q).query.target .target e.conditions ∧
    (e.walk strict q).query.siblings = q.siblings ++ e.conditions.filterMap Condition.sibling? ∧
    (e.walk strict q).query.relatives = q.relatives ++ e.conditions.filterMap Condition.relative? ∧
    ((e.walk strict q).query.parent = none ↔
      q.parent = none ∧ ∀ c ∈ e.conditions, c.owner? ≠ some .parent) ∧
    ∀ p, (e.walk strict q).query.parent = some p →
      (q.parent.getD .empty).Updated p .parent e.conditions := by
  rw [query_walk h]
  refine ⟨q.updated_applyAll _ .target, ?_, ?_, q.parent_applyAll_eq_none _, fun p hp => ?_⟩
  · exact foldl_concat Query.siblings Condition.sibling? (fun q c => c.siblings_apply q) _ q
  · exact foldl_concat Query.relatives Condition.relative? (fun q c => c.relatives_apply q) _ q
  · have hu := q.updated_applyAll e.conditions .parent
    simp only [Query.step, hp, Option.getD_some] at hu
    exact hu

/-- Three attribute tests, two of them on one attribute: the name that is visited first stays in
front, with the test that is visited last. -/
theorem query_walk_slots_attributes :
    ∃ w, walk false (and (and (eq (path (.attributeText ⟨.target, "class"⟩)) (literal (.str "a")))
        (eq (path (.attributeText ⟨.target, "id"⟩)) (literal (.str "x"))))
        (contains (.attributeText ⟨.target, "class"⟩) (literal (.str "b")))) .empty = w ∧
      w.result = .ok () ∧ w.query.target.attributes.names = ["class", "id"] ∧
      w.query.target.attributes.find? "class" = some ⟨"class", "a", .exact⟩ := by
  refine ⟨_, rfl, ?ok, (query_walk_slots ?ok).1.attributeNames.trans ?names,
    ((query_walk_slots ?ok).1.attributeTests "class").trans ?test⟩
  case ok =>
    rw [walk_eq_visitAll]
    rfl
  case names => rfl
  case test => rfl

end Expr

end ElementQuery
