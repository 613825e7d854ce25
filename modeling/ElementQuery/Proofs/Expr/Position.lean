/-
Positions from literals to location paths. A literal places an element if it gives a positive number
of 32 bits: an integer in this range, or a text that is digits once it is cleaned, after a plus sign
or not and with any number of leading zeros.

Main statement: the predicate that a position is a literal has a location path exactly if the literal
places the element, and the path then holds the number in its canonical decimal form. Else the error
carries the text of the literal, and nothing is written into a query.
-/
import ElementQuery.Expr.XPath
import ElementQuery.Proofs.Condition.Rules
import ElementQuery.Proofs.Walk.Fold

namespace ElementQuery

/-! ## Literals that give a position -/

namespace Literal

/-- A literal that gives the number of a position. -/
def Places (l : Literal) (n : Nat) : Prop := l.Counts n ∧ 1 ≤ n ∧ n ≤ 4294967295

variable {l : Literal}

theorem places_of_position {p : Position} (h : l.position = .ok p) : l.Places p.value :=
  ⟨position_eq_ok_iff.1 h, p.pos, Nat.le_of_lt_succ p.small⟩

theorem Places.position {n : Nat} (h : l.Places n) : ∃ p, l.position = .ok p ∧ p.value = n :=
  ⟨⟨n, h.2.1, Nat.lt_succ_of_le h.2.2⟩, position_eq_ok_iff.2 h.1, rfl⟩

theorem position_of_not_places (h : ∀ n, ¬ l.Places n) :
    l.position = .error (.malformed .position l.text) := by
  refine position_of_forall fun n hn => ?_
  by_contra hrange
  refine h n ⟨hn, ?_, ?_⟩
  · omega
  · have : UInt32.size = 4294967296 := rfl
    omega

end Literal

/-! ## The path of a position -/

/-- The location path with a test on the position of the target or of its parent, and no other. -/
def Owner.positionPath (number : String) : Owner → String
  | target => "//*[position()=" ++ number ++ "]"
  | parent => "//*[position()=" ++ number ++ "]/*"

theorem Query.xpath_position (owner : Owner) (p : Position) :
    (Condition.apply .empty (.position owner p)).xpath =
      owner.positionPath (String.ofList (Nat.toDigits 10 p.value)) := by
  have htest : p.xpath = "position()=" ++ String.ofList (Nat.toDigits 10 p.value) :=
    congrArg ("position()=" ++ ·) Nat.toString_eq_ofList_toDigits
  have hfront : "//*[position()=" = "//" ++ ("*" ++ ("[" ++ "position()=")) := rfl
  have hback : "]/*" = "]" ++ ("/" ++ "*") := rfl
  cases owner with
  | target =>
    show "//" ++ "" ++ ("*" ++ ("[" ++ " and ".intercalate [p.xpath] ++ "]")) =
      "//*[position()=" ++ _ ++ "]"
    rw [String.intercalate_singleton, htest]
    simp only [hfront, String.append_assoc, String.append_empty]
  | parent =>
    show "//" ++ ("*" ++ ("[" ++ " and ".intercalate [p.xpath] ++ "]") ++ "/") ++ ("*" ++ "") =
      "//*[position()=" ++ _ ++ "]/*"
    rw [String.intercalate_singleton, htest]
    simp only [hfront, hback, String.append_assoc, String.append_empty]

/-! ## The predicate -/

namespace Expr

/-- The predicate that a position is a literal. -/
def atPosition (owner : Owner) (l : Literal) : Expr :=
  eq (path (.member (.position owner))) (literal l)

variable {owner : Owner} {l : Literal}

theorem classify_atPosition (owner : Owner) (l : Literal) :
    (atPosition owner l).classify = l.position.map fun p =>
      some ⟨(Path.member (.position owner)).rule.name, .position owner p⟩ := by
  have hleaf : (atPosition owner l).classify =
      (Leaf.equals (.member (.position owner)) l).classify := rfl
  rw [hleaf, Leaf.classify_eq, Leaf.answer?]
  cases l.position <;> rfl

theorem walk_atPosition_of_ok (owner : Owner) {p : Position} (h : l.position = .ok p)
    (strict : Bool) (q : Query) :
    ∃ visits, (atPosition owner l).walk strict q =
      ⟨Condition.apply q (.position owner p), visits, .ok ()⟩ := by
  have hclassify := classify_atPosition owner l
  rw [h] at hclassify
  exact ⟨_, walk_of_visit_ok (by simp [atPosition]) (visit_of_some hclassify) q⟩

theorem walk_atPosition_of_error {e : Error} (h : l.position = .error e) (strict : Bool)
    (q : Query) : (atPosition owner l).walk strict q = ⟨q, [], .error e⟩ := by
  have hclassify := classify_atPosition owner l
  rw [h] at hclassify
  exact walk_of_visit_error (by simp [atPosition]) (visit_of_error hclassify) q

theorem xpath_atPosition_of_ok {p : Position} (h : l.position = .ok p) (strict : Bool) :
    (atPosition owner l).xpath strict =
      .ok (owner.positionPath (String.ofList (Nat.toDigits 10 p.value))) := by
  obtain ⟨visits, hwalk⟩ := walk_atPosition_of_ok owner h strict .empty
  rw [xpath, query, hwalk, ← Query.xpath_position]
  rfl

theorem xpath_atPosition_of_error {e : Error} (h : l.position = .error e) (strict : Bool) :
    (atPosition owner l).xpath strict = .error e := by
  rw [xpath, query, walk_atPosition_of_error h]
  rfl

theorem xpath_atPosition_eq_ok_iff {strict : Bool} {path : String} :
    (atPosition owner l).xpath strict = .ok path ↔
      ∃ n digits, l.Places n ∧ Text.Canonical digits n ∧
        path = owner.positionPath (String.ofList digits) := by
  constructor
  · intro h
    cases hp : l.position with
    | error e =>
      rw [xpath_atPosition_of_error hp] at h
      cases h
    | ok p =>
      rw [xpath_atPosition_of_ok hp] at h
      cases h
      exact ⟨p.value, _, Literal.places_of_position hp, (Text.canonical_iff p.pos).2 rfl, rfl⟩
  · rintro ⟨n, digits, hplaces, hdigits, rfl⟩
    obtain ⟨p, hp, rfl⟩ := hplaces.position
    rw [xpath_atPosition_of_ok hp, (Text.canonical_iff p.pos).1 hdigits]

/-- The predicate that a position is a literal has a location path exactly if the literal places an
element: the one with a test for the number that the literal gives, in decimal without leading
zeros. If the literal places no element, the error has its text as it was, and a query into which
the predicate is to be written stays as it is. -/
theorem xpath_eq_positionPath (owner : Owner) (l : Literal) (strict : Bool) :
    ((∃ path, (atPosition owner l).xpath strict = .ok path) ↔ ∃ n, l.Places n) ∧
    (∀ path, (atPosition owner l).xpath strict = .ok path ↔
      ∃ n digits, l.Places n ∧ Text.Canonical digits n ∧
        path = owner.positionPath (String.ofList digits)) ∧
    ((∀ n, ¬ l.Places n) →
      (atPosition owner l).xpath strict = .error (.malformed .position l.text) ∧
      ∀ q, (atPosition owner l).walk strict q = ⟨q, [], .error (.malformed .position l.text)⟩) := by
  refine ⟨⟨?_, ?_⟩, fun path => xpath_atPosition_eq_ok_iff, fun h => ?_⟩
  · rintro ⟨path, h⟩
    obtain ⟨n, -, hplaces, -⟩ := xpath_atPosition_eq_ok_iff.1 h
    exact ⟨n, hplaces⟩
  · rintro ⟨n, hplaces⟩
    exact ⟨_, xpath_atPosition_eq_ok_iff.2
      ⟨n, _, hplaces, (Text.canonical_iff hplaces.2.1).2 rfl, rfl⟩⟩
  · have herror := Literal.position_of_not_places h
    exact ⟨xpath_atPosition_of_error herror strict, walk_atPosition_of_error herror strict⟩

/-- The greatest position, with a sign, leading zeros and a parenthesis left of quoting, and the
first integer that is too great. -/
theorem xpath_eq_positionPath_limits :
    (atPosition .parent (.str "+0004294967295)")).xpath true =
      .ok "//*[position()=4294967295]/*" ∧
    (∀ n, ¬ (Literal.int 4294967296).Places n) ∧
    (atPosition .target (.int 4294967296)).xpath true =
      .error (.malformed .position "4294967296") := by
  have hcanonical : Text.Canonical "4294967295".toList 4294967295 :=
    ⟨⟨by decide, List.all_eq_true.1 rfl, by decide⟩, by decide⟩
  have hclean : Text.cleanChars "+0004294967295)".toList = '+' :: "0004294967295".toList := by decide
  have hplaces : (Literal.str "+0004294967295)").Places 4294967295 := by
    refine ⟨.str ?_, by decide, by decide⟩
    rw [hclean]
    exact .plus (by simp) ⟨by decide, List.all_eq_true.1 rfl, by decide⟩
  have hlarge : ∀ n, ¬ (Literal.int 4294967296).Places n := by
    rintro n ⟨⟨hn⟩, -, hle⟩
    have : (4294967296 : Int64).toInt = 4294967296 := by decide
    omega
  refine ⟨((xpath_eq_positionPath _ _ _).2.1 _).2 ⟨_, _, hplaces, hcanonical, rfl⟩, hlarge, ?_⟩
  exact ((xpath_eq_positionPath .target (.int 4294967296) true).2.2 hlarge).1

end Expr

end ElementQuery
