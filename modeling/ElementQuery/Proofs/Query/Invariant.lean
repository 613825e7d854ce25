/-
What holds of every query that walks build, whatever was walked and whether or not a walk failed on
the way: no name is empty and attribute names differ, positions fit their word, nothing is left of
the quotes around a name or a text, and a parent step is there only if something is said about it.

A literal is checked where it is read, so each condition is well-formed when it is found; writing
such a condition keeps the query well-formed, and a walk writes conditions one after another.
-/
import ElementQuery.Proofs.Condition.Answer
import ElementQuery.Proofs.Text.Clean
import ElementQuery.Proofs.Walk.Fold

namespace ElementQuery

/-! ## Well-formed queries -/

/-- A name that is not empty and has no double quote at its ends. -/
structure CleanName (name : String) : Prop where
  nonempty : name ≠ ""
  unquoted : Text.Unquoted name

/-- A step with clean names and texts. -/
structure Step.WellFormed (s : Step) : Prop where
  name : ∀ n ∈ s.name, CleanName n
  attributeNames : ∀ a ∈ s.attributes.toList, CleanName a.name
  distinct : (s.attributes.toList.map Attribute.name).Nodup
  attributeValues : ∀ a ∈ s.attributes.toList, Text.Unquoted a.text.value
  position : ∀ p ∈ s.position, 1 ≤ p.value ∧ p.value ≤ 4294967295
  text : ∀ t ∈ s.text, Text.Unquoted t.value

/-- A query with clean names and texts, and with a parent step only if something is said about
the parent. -/
structure Query.WellFormed (q : Query) : Prop where
  target : q.target.WellFormed
  parent : ∀ p ∈ q.parent, p.WellFormed
  siblings : ∀ s ∈ q.siblings, CleanName s.name
  relatives : ∀ r ∈ q.relatives, CleanName r.name
  parentSaid : ∀ p ∈ q.parent, p.name.isSome = true ∨ p.hasTests = true

theorem Step.wellFormed_empty : Step.empty.WellFormed := by
  constructor <;> simp [Step.empty]

theorem Query.wellFormed_empty : Query.empty.WellFormed where
  target := Step.wellFormed_empty
  parent := by simp [Query.empty]
  siblings := by simp [Query.empty]
  relatives := by simp [Query.empty]
  parentSaid := by simp [Query.empty]

/-! ## Reading conditions -/

/-- A condition with clean names and texts. -/
def Condition.WellFormed : Condition → Prop
  | name _ n => CleanName n
  | position _ _ => True
  | text _ t => Text.Unquoted t.value
  | attributeTest _ a => CleanName a.name ∧ Text.Unquoted a.text.value
  | sibling s => CleanName s.name
  | relative r => CleanName r.name

/-- What a reader returns, if it does not fail, satisfies a postcondition. -/
def Ensures {α : Type} (P : α → Prop) (x : Except Error α) : Prop := ∀ a, x = .ok a → P a

namespace Ensures

variable {α β : Type} {P : α → Prop} {Q : β → Prop}

theorem trivial (x : Except Error α) : Ensures (fun _ => True) x := fun _ _ => True.intro

theorem ok {a : α} (h : P a) : Ensures P (.ok a) := by
  intro a' ha
  cases ha
  exact h

theorem error (e : Error) : Ensures P (.error e) := by
  intro a ha
  cases ha

theorem map {x : Except Error α} {f : α → β} (hx : Ensures P x) (hf : ∀ a, P a → Q (f a)) :
    Ensures Q (x.map f) := by
  intro b hb
  cases x with
  | error e => cases hb
  | ok a =>
    cases hb
    exact hf a (hx a rfl)

theorem bind {x : Except Error α} {f : α → Except Error β} (hx : Ensures P x)
    (hf : ∀ a, P a → Ensures Q (f a)) : Ensures Q (x >>= f) := by
  intro b hb
  cases x with
  | error e => cases hb
  | ok a => exact hf a (hx a rfl) b hb

end Ensures

/-- A cleaned text that is not empty is a clean name. -/
theorem ensures_cleanName (text : String) (e : Error) :
    Ensures CleanName (if (Text.clean text).isEmpty then .error e else .ok (Text.clean text)) := by
  split
  · exact .error e
  · rename_i hne
    refine .ok ⟨fun h => hne ?_, Text.unquoted_clean text⟩
    rw [h]
    rfl

namespace Literal

theorem ensures_elementName (l : Literal) : Ensures CleanName l.elementName := by
  unfold elementName
  dsimp only
  exact ensures_cleanName l.text _

theorem ensures_attributeTest (l : Literal) (kind : MatchKind) (owner : Owner) (name : String) :
    Ensures Condition.WellFormed (l.attributeTest kind owner name) := by
  unfold attributeTest attributeNameOf
  dsimp only
  refine (ensures_cleanName name _).bind fun n hn => ?_
  exact .ok ⟨hn, Text.unquoted_clean l.text⟩

end Literal

/-- The answer to a leaf is a well-formed condition, or an error. -/
theorem Leaf.ensures_answer {leaf : Leaf} {answer : Except Error Condition}
    (h : leaf.answer? = some answer) : Ensures Condition.WellFormed answer := by
  unfold answer? at h
  split at h
  · rw [← Option.some.inj h]
    exact (Literal.ensures_elementName _).map fun _ hn => hn
  · rw [← Option.some.inj h]
    exact (Ensures.trivial _).map fun _ _ => True.intro
  · rw [← Option.some.inj h]
    exact .ok (Text.unquoted_clean _)
  · rw [← Option.some.inj h]
    exact (Literal.ensures_elementName _).map fun _ hn => hn
  · rw [← Option.some.inj h]
    exact (Literal.ensures_elementName _).map fun _ hn => hn
  · rw [← Option.some.inj h]
    exact Literal.ensures_attributeTest _ _ _ _
  · rw [← Option.some.inj h]
    exact Literal.ensures_attributeTest _ _ _ _
  · rw [← Option.some.inj h]
    exact .ok (Text.unquoted_clean _)
  · cases h

/-- What was found in a conjunct, if anything, is a well-formed condition. -/
def FoundWellFormed (found : Option Classified) : Prop := ∀ f ∈ found, f.condition.WellFormed

theorem foundWellFormed_none : FoundWellFormed none := by
  intro f hf
  cases hf

theorem Leaf.ensures_classify (leaf : Leaf) : Ensures FoundWellFormed leaf.classify := by
  rw [classify_eq]
  split
  · rename_i answer h
    refine (ensures_answer h).map fun c hc f hf => ?_
    cases hf
    exact hc
  · exact .ok foundWellFormed_none

namespace Expr

theorem ensures_classify (c : Expr) : Ensures FoundWellFormed c.classify := by
  unfold classify
  refine (Ensures.trivial _).bind fun a _ => ?_
  split
  · exact Leaf.ensures_classify _
  · exact .ok foundWellFormed_none

theorem ensures_visit (strict : Bool) (c : Expr) : Ensures FoundWellFormed (c.visit strict) := by
  cases h : c.classify with
  | error e =>
    rw [visit_of_error h]
    exact .error e
  | ok found =>
    cases found with
    | some found =>
      rw [visit_of_some h]
      exact .ok (ensures_classify c _ h)
    | none =>
      rw [visit_of_none h]
      cases strict with
      | true => exact .error _
      | false => exact .ok foundWellFormed_none

end Expr

/-! ## Writing conditions -/

namespace Step.WellFormed

variable {s : Step} (hs : s.WellFormed)

include hs

theorem setName {n : String} (hn : CleanName n) : WellFormed { s with name := some n } :=
  { hs with name := by simpa using hn }

theorem setPosition (p : Position) : WellFormed { s with position := some p } :=
  { hs with
    position := by
      rintro _ ⟨⟩
      have hpos := p.pos
      have hsmall : p.value < 4294967296 := p.small
      omega }

theorem setText {t : TextTest} (ht : Text.Unquoted t.value) :
    WellFormed { s with text := some t } :=
  { hs with text := by simpa using ht }

theorem insert {a : Attribute} (hn : CleanName a.name) (hv : Text.Unquoted a.text.value) :
    WellFormed { s with attributes := s.attributes.insert a } :=
  { hs with
    attributeNames := by
      intro b hb
      rcases Rows.eq_or_mem_of_mem_put _ hb with rfl | hb
      · exact hn
      · exact hs.attributeNames b hb
    distinct := (s.attributes.insert a).distinct
    attributeValues := by
      intro b hb
      rcases Rows.eq_or_mem_of_mem_put _ hb with rfl | hb
      · exact hv
      · exact hs.attributeValues b hb }

end Step.WellFormed

namespace Query.WellFormed

variable {q : Query} (hq : q.WellFormed)

include hq

/-- A change that keeps steps well-formed and says something about the step that it changes keeps
queries well-formed, also where it starts a parent step. -/
theorem modifyStep {f : Step → Step} (hf : ∀ s, s.WellFormed → (f s).WellFormed)
    (hsaid : ∀ s, (f s).name.isSome = true ∨ (f s).hasTests = true) (o : Owner) :
    (q.modifyStep f o).WellFormed := by
  cases o with
  | target => exact { hq with target := hf _ hq.target }
  | parent =>
    -- the step that is changed is the one there, or the empty one that it starts from
    have hparent : (q.parent.getD .empty).WellFormed := by
      cases hp : q.parent with
      | none => exact Step.wellFormed_empty
      | some p => exact hq.parent p hp
    refine { hq with parent := ?_, parentSaid := ?_ }
    · rintro _ ⟨⟩
      exact hf _ hparent
    · rintro _ ⟨⟩
      exact hsaid _

theorem apply {c : Condition} (hc : c.WellFormed) : (c.apply q).WellFormed := by
  cases c with
  | name o n => exact hq.modifyStep (fun s hs => hs.setName hc) (fun s => .inl rfl) o
  | position o p =>
    exact hq.modifyStep (fun s hs => hs.setPosition p) (fun s => .inr (by simp [Step.hasTests])) o
  | text o t =>
    exact hq.modifyStep (fun s hs => hs.setText hc) (fun s => .inr (by simp [Step.hasTests])) o
  | attributeTest o a =>
    refine hq.modifyStep (fun s hs => hs.insert hc.1 hc.2) (fun s => .inr ?_) o
    simp [Step.hasTests, AttributeSet.isEmpty, Rows.put_ne_nil]
  | sibling s =>
    refine { hq with siblings := ?_ }
    intro s' hs'
    rcases List.mem_append.1 hs' with h | h
    · exact hq.siblings s' h
    · rw [List.mem_singleton.1 h]
      exact hc
  | relative r =>
    refine { hq with relatives := ?_ }
    intro r' hr'
    rcases List.mem_append.1 hr' with h | h
    · exact hq.relatives r' h
    · rw [List.mem_singleton.1 h]
      exact hc

theorem write {found : Option Classified} (hf : FoundWellFormed found) :
    (q.write found).WellFormed := by
  cases found with
  | none => exact hq
  | some found => exact hq.apply (hf found rfl)

theorem writeAll {visits : List Visit} (hv : ∀ v ∈ visits, FoundWellFormed v.found) :
    (q.writeAll visits).WellFormed := by
  induction visits generalizing q with
  | nil => exact hq
  | cons v visits ih =>
    rw [List.forall_mem_cons] at hv
    exact ih (hq.write hv.1) hv.2

/-- What a walk leaves is well-formed, whether it succeeds or fails on the way. -/
theorem walk (strict : Bool) (e : Expr) : (e.walk strict q).query.WellFormed := by
  obtain ⟨visits, hvisits, hrun⟩ := Expr.visitAll_cases strict e.conjuncts.reverse q
  have hquery : (e.walk strict q).query = q.writeAll visits := by
    rw [Expr.walk_eq_visitAll]
    rcases hrun with ⟨-, hw⟩ | ⟨c, rest, err, -, -, hw⟩ <;> rw [hw]
  rw [hquery]
  exact hq.writeAll fun v hv => Expr.ensures_visit strict v.conjunct _ (hvisits v hv)

end Query.WellFormed

/-! ## Any number of walks -/

/-- The queries that walks lead to from the query that says nothing, each going on from what the
one before it left, whether that succeeded or failed. -/
inductive Query.Reached : Query → Prop
  | empty : Reached .empty
  | walk {q : Query} (strict : Bool) (e : Expr) : q.Reached → Reached (e.walk strict q).query

/-- Every query that walks lead to is well-formed. -/
theorem Query.wellFormed_of_reached {q : Query} (h : q.Reached) : q.WellFormed := by
  induction h with
  | empty => exact wellFormed_empty
  | walk strict e _ ih => exact ih.walk strict e

/-- A walk that fails at a position after it has started the parent step, and a strict walk that
goes on from there. -/
theorem Query.wellFormed_of_reached_after_failure :
    ∃ w w', Expr.walk false (.and (.eq (.path (.member (.position .target))) (.literal (.int 0)))
        (.eq (.path (.member (.text .parent))) (.literal (.str "\"x\"")))) .empty = w ∧
      w.result = .error (.malformed .position "0") ∧
      Expr.walk true (.eq (.path (.member (.name .target))) (.literal (.str "td"))) w.query = w' ∧
      w'.query = ⟨⟨some "td", .empty, none, none⟩,
        some ⟨none, .empty, none, some ⟨"x", .exact⟩⟩, [], []⟩ ∧
      w'.query.WellFormed := by
  refine ⟨_, _, rfl, ?_, rfl, ?_, wellFormed_of_reached (.walk _ _ (.walk _ _ .empty))⟩
  · rw [Expr.walk_eq_visitAll]
    rfl
  · rw [Expr.walk_eq_visitAll, Expr.walk_eq_visitAll]
    rfl

end ElementQuery
