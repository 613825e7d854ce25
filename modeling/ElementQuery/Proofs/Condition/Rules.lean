/-
What leaves say, and the rules that say it. An equality always says something or has an operand
that cannot be read; a containment test says something of a text or an attribute and of nothing
else. The condition is about the element and the property that the path names.

The rules are tried in order. A leaf about an attribute of the parent is recognised by two of them,
which say different things, and any other leaf by one at most; so their order matters to that pair
alone.
-/
import Mathlib.Data.List.Permutation
import ElementQuery.Proofs.Condition.Answer
import ElementQuery.Proofs.Text.Integer

namespace ElementQuery

/-! ## Readings of literals -/

theorem Position.ofNat?_eq_some_iff {n : Nat} {p : Position} :
    Position.ofNat? n = some p ↔ n = p.value := by
  unfold Position.ofNat?
  split
  · rw [Option.some.injEq]
    constructor
    · rintro rfl
      rfl
    · rintro rfl
      rfl
  · rename_i hn
    simp only [reduceCtorEq, false_iff]
    rintro rfl
    exact hn ⟨p.pos, p.small⟩

namespace Literal

/-- A literal that gives a number: an integer, or a text that is a numeral once it is cleaned. -/
inductive Counts : Literal → Nat → Prop
  | int {i : Int64} {n : Nat} (h : i.toInt = n) : Counts (.int i) n
  | str {s : String} {n : Nat} (h : Text.Numeral ['+'] (Text.cleanChars s.toList) n) :
      Counts (.str s) n

variable {l : Literal}

theorem ordinal?_eq_some_iff {n : Nat} : l.ordinal? = some n ↔ l.Counts n := by
  constructor
  · intro h
    cases l with
    | bool b => cases h
    | int i => exact .int (Int.mem_toNat?.1 h)
    | str s => exact .str (Text.readNat?_eq_some_iff.1 h)
  · intro h
    cases h with
    | int h =>
      rw [ordinal?, h]
      rfl
    | str h =>
      rw [ordinal?]
      exact Text.readNat?_eq_some_iff.2 h

/-- A literal gives the position with the number that it gives. -/
theorem position_eq_ok_iff {p : Position} : l.position = .ok p ↔ l.Counts p.value := by
  have hbind : l.ordinal?.bind Position.ofNat? = some p ↔ l.Counts p.value := by
    rw [Option.bind_eq_some_iff]
    constructor
    · rintro ⟨n, hn, hp⟩
      rw [← Position.ofNat?_eq_some_iff.1 hp]
      exact ordinal?_eq_some_iff.1 hn
    · exact fun h => ⟨_, ordinal?_eq_some_iff.2 h, Position.ofNat?_eq_some_iff.2 rfl⟩
  rw [← hbind, position]
  cases l.ordinal?.bind Position.ofNat? <;> simp

theorem position_of_forall (h : ∀ n, l.Counts n → n = 0 ∨ UInt32.size ≤ n) :
    l.position = .error (.malformed .position l.text) := by
  unfold position
  split
  · rename_i p hp
    obtain ⟨n, hn, hp⟩ := Option.bind_eq_some_iff.1 hp
    cases Position.ofNat?_eq_some_iff.1 hp
    have := h p.value (ordinal?_eq_some_iff.1 hn)
    have := p.pos
    have := p.small
    omega
  · rfl

theorem elementName_of_empty (h : Text.clean l.text = "") :
    l.elementName = .error (.malformed .elementName l.text) := by
  rw [elementName, h]
  rfl

theorem elementName_of_ne (h : Text.clean l.text ≠ "") :
    l.elementName = .ok (Text.clean l.text) := by
  rw [elementName, if_neg fun hempty => h (String.isEmpty_iff.1 hempty)]

theorem attributeTest_of_empty {name : String} (h : Text.clean name = "") (kind : MatchKind)
    (owner : Owner) :
    l.attributeTest kind owner name = .error (.malformed .attributeName name) := by
  rw [attributeTest, attributeNameOf, h]
  rfl

theorem attributeTest_of_ne {name : String} (h : Text.clean name ≠ "") (kind : MatchKind)
    (owner : Owner) :
    l.attributeTest kind owner name =
      .ok (.attributeTest owner ⟨Text.clean name, Text.clean l.text, kind⟩) := by
  rw [attributeTest, attributeNameOf, if_neg fun hempty => h (String.isEmpty_iff.1 hempty)]
  rfl

end Literal

/-! ## Meanings of leaves -/

/-- A member that is the name of an element. -/
def Member.IsName : Member → Prop
  | .name _ | .siblingName _ | .relativeName _ => True
  | .position _ | .text _ => False

namespace Leaf

/-- A containment test on a member that is no text. -/
inductive Mute : Leaf → Prop
  | contains {m : Member} (l : Literal) (h : ∀ owner, m ≠ .text owner) :
      Mute (.contains (.member m) l)

/-- A leaf with an operand that cannot be read: what it should have been, and its text. -/
inductive Unreadable : Leaf → Role → String → Prop
  | elementName {m : Member} {l : Literal} (hm : m.IsName) (h : Text.clean l.text = "") :
      Unreadable (.equals (.member m) l) .elementName l.text
  | attributeName {leaf : Leaf} {a : AttributeRef} (hpath : leaf.path = .attributeText a)
      (h : Text.clean a.name = "") : Unreadable leaf .attributeName a.name
  | position (owner : Owner) {l : Literal} (h : ∀ n, l.Counts n → n = 0 ∨ UInt32.size ≤ n) :
      Unreadable (.equals (.member (.position owner)) l) .position l.text

/-- The condition that a leaf with readable operands expresses: about the property and the element
that its path names, with cleaned texts. -/
inductive Expresses : Leaf → Condition → Prop
  | name (owner : Owner) {l : Literal} (h : Text.clean l.text ≠ "") :
      Expresses (.equals (.member (.name owner)) l) (.name owner (Text.clean l.text))
  | sibling (axis : SiblingAxis) {l : Literal} (h : Text.clean l.text ≠ "") :
      Expresses (.equals (.member (.siblingName axis)) l) (.sibling ⟨Text.clean l.text, axis⟩)
  | relative (axis : RelativeAxis) {l : Literal} (h : Text.clean l.text ≠ "") :
      Expresses (.equals (.member (.relativeName axis)) l) (.relative ⟨Text.clean l.text, axis⟩)
  | position (owner : Owner) {l : Literal} {p : Position} (h : l.Counts p.value) :
      Expresses (.equals (.member (.position owner)) l) (.position owner p)
  | textExact (owner : Owner) (l : Literal) :
      Expresses (.equals (.member (.text owner)) l) (.text owner ⟨Text.clean l.text, .exact⟩)
  | textContains (owner : Owner) (l : Literal) :
      Expresses (.contains (.member (.text owner)) l) (.text owner ⟨Text.clean l.text, .contains⟩)
  | attributeExact {a : AttributeRef} (l : Literal) (h : Text.clean a.name ≠ "") :
      Expresses (.equals (.attributeText a) l)
        (.attributeTest a.owner ⟨Text.clean a.name, Text.clean l.text, .exact⟩)
  | attributeContains {a : AttributeRef} (l : Literal) (h : Text.clean a.name ≠ "") :
      Expresses (.contains (.attributeText a) l)
        (.attributeTest a.owner ⟨Text.clean a.name, Text.clean l.text, .contains⟩)

variable {leaf : Leaf}

theorem Mute.answer? (h : leaf.Mute) : leaf.answer? = none := by
  cases h with
  | @contains m l h =>
    cases m with
    | text owner => exact absurd rfl (h owner)
    | _ => rfl

theorem Unreadable.answer? {role : Role} {text : String} (h : leaf.Unreadable role text) :
    leaf.answer? = some (.error (.malformed role text)) := by
  cases h with
  | @elementName m l hm h =>
    cases m with
    | name owner => rw [Leaf.answer?, Literal.elementName_of_empty h]; rfl
    | siblingName axis => rw [Leaf.answer?, Literal.elementName_of_empty h]; rfl
    | relativeName axis => rw [Leaf.answer?, Literal.elementName_of_empty h]; rfl
    | position owner => cases hm
    | text owner => cases hm
  | @attributeName _ a hpath h =>
    cases leaf with
    | equals p l =>
      cases hpath
      rw [Leaf.answer?, Literal.attributeTest_of_empty h]
    | contains p l =>
      cases hpath
      rw [Leaf.answer?, Literal.attributeTest_of_empty h]
  | position owner h =>
    rw [Leaf.answer?, Literal.position_of_forall h]
    rfl

theorem Expresses.answer? {c : Condition} (h : leaf.Expresses c) : leaf.answer? = some (.ok c) := by
  cases h with
  | name owner h => rw [Leaf.answer?, Literal.elementName_of_ne h]; rfl
  | sibling axis h => rw [Leaf.answer?, Literal.elementName_of_ne h]; rfl
  | relative axis h => rw [Leaf.answer?, Literal.elementName_of_ne h]; rfl
  | position owner h => rw [Leaf.answer?, Literal.position_eq_ok_iff.2 h]; rfl
  | textExact owner l => rfl
  | textContains owner l => rfl
  | attributeExact l h => rw [Leaf.answer?, Literal.attributeTest_of_ne h]
  | attributeContains l h => rw [Leaf.answer?, Literal.attributeTest_of_ne h]

/-- Every leaf says nothing, or has an operand that cannot be read, or expresses a condition. -/
theorem mute_or_unreadable_or_expresses (leaf : Leaf) :
    leaf.Mute ∨ (∃ role text, leaf.Unreadable role text) ∨ ∃ c, leaf.Expresses c := by
  have hname {m : Member} {l : Literal} {c : Condition} (hm : m.IsName)
      (h : Text.clean l.text ≠ "" → Expresses (.equals (.member m) l) c) :
      (∃ role text, Unreadable (.equals (.member m) l) role text) ∨
        ∃ c, Expresses (.equals (.member m) l) c := by
    by_cases hempty : Text.clean l.text = ""
    · exact .inl ⟨_, _, .elementName hm hempty⟩
    · exact .inr ⟨_, h hempty⟩
  cases leaf with
  | equals p l =>
    refine .inr ?_
    rcases p with (owner | owner | owner | axis | axis) | a
    · exact hname trivial (.name owner)
    · by_cases h : ∃ p : Position, l.Counts p.value
      · obtain ⟨p, hp⟩ := h
        exact .inr ⟨_, .position owner hp⟩
      · refine .inl ⟨_, _, .position owner fun n hn => ?_⟩
        by_contra hrange
        exact h ⟨⟨n, by omega, by omega⟩, hn⟩
    · exact .inr ⟨_, .textExact owner l⟩
    · exact hname trivial (.sibling axis)
    · exact hname trivial (.relative axis)
    · by_cases hempty : Text.clean a.name = ""
      · exact .inl ⟨_, _, .attributeName rfl hempty⟩
      · exact .inr ⟨_, .attributeExact l hempty⟩
  | contains p l =>
    rcases p with m | a
    · by_cases hm : ∃ owner, m = .text owner
      · obtain ⟨owner, rfl⟩ := hm
        exact .inr (.inr ⟨_, .textContains owner l⟩)
      · exact .inl (.contains l fun owner h => hm ⟨owner, h⟩)
    · by_cases hempty : Text.clean a.name = ""
      · exact .inr (.inl ⟨_, _, .attributeName rfl hempty⟩)
      · exact .inr (.inr ⟨_, .attributeContains l hempty⟩)

/-- The cases of a classification are the cases of what a leaf says. -/
theorem classify_iff (leaf : Leaf) :
    (leaf.classify = .ok none ↔ leaf.Mute) ∧
      (∀ e, leaf.classify = .error e ↔
        ∃ role text, e = .malformed role text ∧ leaf.Unreadable role text) ∧
      ∀ found, leaf.classify = .ok (some found) ↔
        leaf.Expresses found.condition ∧ found.rule = leaf.path.rule.name := by
  have hmute (h : leaf.Mute) : leaf.classify = .ok none := by
    rw [classify_eq, h.answer?]
  have hunreadable {role : Role} {text : String} (h : leaf.Unreadable role text) :
      leaf.classify = .error (.malformed role text) := by
    rw [classify_eq, h.answer?]
    rfl
  have hexpresses {c : Condition} (h : leaf.Expresses c) :
      leaf.classify = .ok (some ⟨leaf.path.rule.name, c⟩) := by
    rw [classify_eq, h.answer?]
    rfl
  refine ⟨⟨fun h => ?_, hmute⟩, fun e => ⟨fun h => ?_, ?_⟩, fun found => ⟨fun h => ?_, ?_⟩⟩
  · rcases leaf.mute_or_unreadable_or_expresses with hleaf | ⟨role, text, hleaf⟩ | ⟨c, hleaf⟩
    · exact hleaf
    · cases h.symm.trans (hunreadable hleaf)
    · cases h.symm.trans (hexpresses hleaf)
  · rcases leaf.mute_or_unreadable_or_expresses with hleaf | ⟨role, text, hleaf⟩ | ⟨c, hleaf⟩
    · cases h.symm.trans (hmute hleaf)
    · cases h.symm.trans (hunreadable hleaf)
      exact ⟨role, text, rfl, hleaf⟩
    · cases h.symm.trans (hexpresses hleaf)
  · rintro ⟨role, text, rfl, hleaf⟩
    exact hunreadable hleaf
  · rcases leaf.mute_or_unreadable_or_expresses with hleaf | ⟨role, text, hleaf⟩ | ⟨c, hleaf⟩
    · cases h.symm.trans (hmute hleaf)
    · cases h.symm.trans (hunreadable hleaf)
    · cases h.symm.trans (hexpresses hleaf)
      exact ⟨hleaf, rfl⟩
  · obtain ⟨rule, c⟩ := found
    rintro ⟨hleaf, rfl⟩
    exact hexpresses hleaf

/-! ## The order of the rules -/

/-- A leaf about an attribute of the parent. -/
def OfParentAttribute (leaf : Leaf) : Prop := ∃ name, leaf.path = .attributeText ⟨.parent, name⟩

/-- The leaf with the target in place of the owner of an attribute. -/
def retarget : Leaf → Leaf
  | equals (.attributeText a) l => equals (.attributeText ⟨.target, a.name⟩) l
  | contains (.attributeText a) l => contains (.attributeText ⟨.target, a.name⟩) l
  | leaf => leaf

/-- The rules among those given that recognise a leaf. -/
def recognisers (leaf : Leaf) (rules : List Rule) : List Rule :=
  rules.filter fun rule => (rule.answer leaf).isSome

/-- The rules that do not recognise a leaf do not matter to it. -/
theorem classifyBy_recognisers (leaf : Leaf) (rules : List Rule) :
    leaf.classifyBy (leaf.recognisers rules) = leaf.classifyBy rules := by
  induction rules with
  | nil => rfl
  | cons rule rules ih =>
    unfold recognisers at ih ⊢
    cases h : rule.answer leaf with
    | none =>
      rw [List.filter_cons_of_neg (by simp [h]), classifyBy, h]
      exact ih
    | some answer =>
      rw [List.filter_cons_of_pos (by simp [h]), classifyBy_cons h, classifyBy_cons h]

theorem OfParentAttribute.recognisers (h : leaf.OfParentAttribute) :
    leaf.recognisers Rule.all = [.parent, .attributes] ∧
      leaf.recognisers [.parent, .attributes] = [.parent, .attributes] := by
  obtain ⟨name, h⟩ := h
  cases leaf with
  | equals p l =>
    cases h
    exact ⟨rfl, rfl⟩
  | contains p l =>
    cases h
    exact ⟨rfl, rfl⟩

theorem length_recognisers_le_one (h : ¬ leaf.OfParentAttribute) :
    (leaf.recognisers Rule.all).length ≤ 1 := by
  cases leaf with
  | equals p l =>
    rcases p with ((_ | _) | (_ | _) | (_ | _) | axis | axis) | ⟨_ | _, name⟩
    case attributeText.parent => exact absurd ⟨name, rfl⟩ h
    all_goals exact Nat.le_refl 1
  | contains p l =>
    rcases p with (owner | owner | (_ | _) | axis | axis) | ⟨_ | _, name⟩
    case attributeText.parent => exact absurd ⟨name, rfl⟩ h
    case member.text.target | member.text.parent | attributeText.target => exact Nat.le_refl 1
    all_goals exact Nat.zero_le 1

section
variable {rules : List Rule} (hrules : rules.Perm Rule.all)
include hrules

/-- Where at most one rule recognises a leaf, the order of the rules does not matter. -/
theorem classifyBy_of_not_ofParentAttribute (h : ¬ leaf.OfParentAttribute) :
    leaf.classifyBy rules = leaf.classify := by
  have hperm : (leaf.recognisers rules).Perm (leaf.recognisers Rule.all) := hrules.filter _
  have hlength := length_recognisers_le_one h
  rw [classify, ← classifyBy_recognisers, ← classifyBy_recognisers leaf Rule.all]
  generalize leaf.recognisers rules = these at hperm ⊢
  generalize leaf.recognisers Rule.all = those at hperm hlength ⊢
  cases those with
  | nil => rw [hperm.eq_nil]
  | cons rule more =>
    cases List.length_eq_zero_iff.1 (Nat.le_zero.1 (Nat.le_of_succ_le_succ hlength))
    rw [List.perm_singleton.1 hperm]

/-- In any order of the rules, the two that recognise a leaf about an attribute of the parent stand
in one order or the other. -/
theorem recognisers_of_perm (h : leaf.OfParentAttribute) :
    leaf.recognisers rules = [.parent, .attributes] ∨
      leaf.recognisers rules = [.attributes, .parent] := by
  have hperm : (leaf.recognisers rules).Perm [.parent, .attributes] := by
    rw [← h.recognisers.1]
    exact hrules.filter _
  exact List.perm_pair.1 hperm

theorem classifyBy_of_sublist (h : [Rule.parent, .attributes].Sublist rules) (leaf : Leaf) :
    leaf.classifyBy rules = leaf.classify := by
  by_cases hleaf : leaf.OfParentAttribute
  · have hsub : (leaf.recognisers [.parent, .attributes]).Sublist (leaf.recognisers rules) :=
      h.filter _
    have hlength : (leaf.recognisers rules).length = (leaf.recognisers Rule.all).length :=
      (hrules.filter _).length_eq
    rw [hleaf.recognisers.2] at hsub
    rw [hleaf.recognisers.1] at hlength
    rw [classify, ← classifyBy_recognisers, ← hsub.eq_of_length hlength.symm,
      ← classifyBy_recognisers leaf Rule.all, hleaf.recognisers.1]
  · exact classifyBy_of_not_ofParentAttribute hrules hleaf

theorem classifyBy_of_not_sublist (h : ¬ [Rule.parent, .attributes].Sublist rules)
    (hleaf : leaf.OfParentAttribute) : leaf.classifyBy rules = leaf.retarget.classify := by
  rcases recognisers_of_perm hrules hleaf with heq | heq
  · exact absurd (heq ▸ List.filter_sublist) h
  · rw [← classifyBy_recognisers, heq]
    obtain ⟨name, hpath⟩ := hleaf
    -- the rule for attributes answers as it does for the target
    cases leaf with
    | equals p l =>
      cases hpath
      rw [classifyBy_cons rfl]
      exact (classify_of_answer [.parent, .targetName] rfl rfl rfl).symm
    | contains p l =>
      cases hpath
      rw [classifyBy_cons rfl]
      exact (classify_of_answer [.parent, .targetName] rfl rfl rfl).symm

end

/-- A leaf is classified by what it says. Nothing is found for a containment test on a member that
is no text; an operand that cannot be read is an error with its text as it was; else the condition
is the one that the leaf expresses. Two rules recognise a leaf about an attribute of the parent, and
at most one any other. So any order of the rules in which that of the parent comes before that of
attributes finds the same; in other orders a leaf about an attribute of the parent is taken for one
about the target, and other leaves are found as they were. -/
theorem classify_meaning (leaf : Leaf) :
    (leaf.classify = .ok none ↔ leaf.Mute) ∧
    (∀ e, leaf.classify = .error e ↔
      ∃ role text, e = .malformed role text ∧ leaf.Unreadable role text) ∧
    (∀ found, leaf.classify = .ok (some found) ↔
      leaf.Expresses found.condition ∧ found.rule = leaf.path.rule.name) ∧
    (leaf.OfParentAttribute → leaf.recognisers Rule.all = [.parent, .attributes]) ∧
    (¬ leaf.OfParentAttribute → (leaf.recognisers Rule.all).length ≤ 1) ∧
    ∀ rules : List Rule, rules.Perm Rule.all →
      (¬ leaf.OfParentAttribute ∨ [Rule.parent, .attributes].Sublist rules →
        leaf.classifyBy rules = leaf.classify) ∧
      (leaf.OfParentAttribute → ¬ [Rule.parent, .attributes].Sublist rules →
        leaf.classifyBy rules = leaf.retarget.classify) := by
  obtain ⟨hmute, hunreadable, hexpresses⟩ := leaf.classify_iff
  refine ⟨hmute, hunreadable, hexpresses, fun h => h.recognisers.1, length_recognisers_le_one, ?_⟩
  intro rules hrules
  constructor
  · rintro (hleaf | horder)
    · exact classifyBy_of_not_ofParentAttribute hrules hleaf
    · exact classifyBy_of_sublist hrules horder leaf
  · exact fun hleaf horder => classifyBy_of_not_sublist hrules horder hleaf

/-- In the reverse order of the rules, an attribute of the parent becomes one of the target. -/
theorem classify_meaning_reversed :
    OfParentAttribute (.equals (.attributeText ⟨.parent, "id"⟩) (.str "\"x\"")) ∧
      ¬ [Rule.parent, .attributes].Sublist Rule.all.reverse ∧
      classify (.equals (.attributeText ⟨.parent, "id"⟩) (.str "\"x\"")) =
        .ok (some ⟨"parent", .attributeTest .parent ⟨"id", "x", .exact⟩⟩) ∧
      classifyBy (.equals (.attributeText ⟨.parent, "id"⟩) (.str "\"x\"")) Rule.all.reverse =
        .ok (some ⟨"attribute", .attributeTest .target ⟨"id", "x", .exact⟩⟩) := by
  have hleaf : OfParentAttribute (.equals (.attributeText ⟨.parent, "id"⟩) (.str "\"x\"")) :=
    ⟨"id", rfl⟩
  have horder : ¬ [Rule.parent, .attributes].Sublist Rule.all.reverse := by
    intro h
    have hnames := h.map Rule.name
    revert hnames
    decide
  have hmeaning (owner : Owner) : Expresses (.equals (.attributeText ⟨owner, "id"⟩) (.str "\"x\""))
      (.attributeTest owner ⟨"id", "x", .exact⟩) := by
    have hname : Text.clean "id" = "id" := by cbv
    have hvalue : Text.clean (Literal.str "\"x\"").text = "x" := by cbv
    have h := Expresses.attributeExact (a := ⟨owner, "id"⟩) (.str "\"x\"") (by rw [hname]; decide)
    rwa [hname, hvalue] at h
  refine ⟨hleaf, horder, ?_, ?_⟩
  · exact ((classify_meaning _).2.2.1 _).2 ⟨hmeaning .parent, rfl⟩
  · rw [((classify_meaning _).2.2.2.2.2 _ (List.reverse_perm _)).2 hleaf horder]
    exact ((classify_meaning _).2.2.1 _).2 ⟨hmeaning .target, rfl⟩

end Leaf

end ElementQuery
