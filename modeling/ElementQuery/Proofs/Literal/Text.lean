/-
Only the text of a literal counts. A literal and its text convert to the same literal, or fail with
the same error, and they give the same name, position and test; so leaves that differ at most in the
kinds of their literals express the same condition, and alike trees are classified alike.

The one place where a literal is not read through its text is an integer as a position or as the
operand of a conversion. There the text of the integer has to read back: no character of it is
taken off at its ends, and its digits are those of the integer.
-/
import ElementQuery.Proofs.Condition.Answer
import ElementQuery.Proofs.Operand.Alike
import ElementQuery.Proofs.Token.Lexes

namespace ElementQuery

/-! ## The text of a word -/

namespace Text

theorem isDigit_or_minus_of_mem_ofWord {i : Int64} {c : Char} (h : c ∈ (ofWord i).toList) :
    c.isDigit = true ∨ c = '-' := by
  rcases toList_ofWord i with ho | ho <;> rw [ho] at h
  · exact .inl (isDigit_of_mem_digits h)
  · rcases List.mem_cons.1 h with rfl | h
    · exact .inr rfl
    · exact .inl (isDigit_of_mem_digits h)

/-- The text of a word has no character of a set without digits and minus sign. -/
theorem strip_ofWord {p : Char → Bool} (hdigit : ∀ c : Char, c.isDigit = true → p c = false)
    (hminus : p '-' = false) (i : Int64) : strip p (ofWord i).toList = (ofWord i).toList := by
  refine strip_eq_self fun c hc => ?_
  rcases isDigit_or_minus_of_mem_ofWord hc with hc | rfl
  · exact hdigit c hc
  · exact hminus

theorem trim_ofWord (i : Int64) : trim (ofWord i).toList = (ofWord i).toList := by
  refine strip_ofWord (fun c hc => ?_) (by decide) i
  have := Token.toNat_of_isDigit hc
  exact Token.isBlank_of_toNat (by omega)

theorem strip_char_ofWord {d : Char} (hd : d.isDigit = false) (hminus : d ≠ '-') (i : Int64) :
    strip (· == d) (ofWord i).toList = (ofWord i).toList := by
  refine strip_ofWord (fun c hc => ?_) (by simpa using hminus.symm) i
  rw [beq_eq_false_iff_ne]
  rintro rfl
  rw [hd] at hc
  cases hc

theorem cleanChars_ofWord (i : Int64) : cleanChars (ofWord i).toList = (ofWord i).toList := by
  rw [cleanChars, trim_ofWord, strip_char_ofWord (by decide) (by decide),
    strip_char_ofWord (by decide) (by decide), strip_char_ofWord (by decide) (by decide)]

/-- Read without a minus sign, the text of a word is its number if that is not negative. -/
theorem readNat?_ofWord (i : Int64) : readNat? (ofWord i).toList = i.toInt.toNat? := by
  show readNat? (Int.repr i.toInt).toList = _
  cases i.toInt with
  | ofNat n =>
    rw [Int.repr, Nat.toList_repr]
    exact readNat?_digits n
  | negSucc n =>
    rw [Int.repr, String.toList_append]
    rfl

end Text

/-! ## Conversions -/

namespace Literal

/-- Two literals with the same text. -/
def SameText (l l' : Literal) : Prop := l.text = l'.text

theorem readBool?_ofWord (i : Int64) : readBool? (Text.ofWord i).toList = none := by
  have hne : ∀ w : String, 'e' ∈ w.toList → (Text.ofWord i).toList ≠ w.toList := by
    intro w hw h
    rw [← h] at hw
    rcases Text.isDigit_or_minus_of_mem_ofWord hw with he | he <;> cases he
  rw [readBool?, if_neg (hne "true" (by decide)), if_neg (hne "false" (by decide))]

theorem convert_str_int (s : String) :
    (str s).convert .int = match Text.readWord? (Text.trim s.toList) with
      | some i => .ok (int i)
      | none => .error (.malformed .integerConversion s) := rfl

theorem convert_str_bool (s : String) :
    (str s).convert .bool = match readBool? (Text.trim s.toList) with
      | some b => .ok (bool b)
      | none => .error (.malformed .booleanConversion s) := rfl

/-- A literal and its text convert to the same literal, or fail with the same error. -/
theorem convert_text (kind : LiteralKind) (l : Literal) :
    (str l.text).convert kind = l.convert kind := by
  cases l with
  | str s => rfl
  | bool b =>
    cases kind with
    | str => rfl
    | int => cases b <;> rfl
    | bool => cases b <;> rfl
  | int i =>
    cases kind with
    | str => rfl
    | int =>
      show (str (Text.ofWord i)).convert .int = .ok (int i)
      rw [convert_str_int, Text.trim_ofWord, Text.readWord?_ofWord]
    | bool =>
      show (str (Text.ofWord i)).convert .bool =
        .error (.malformed .booleanConversion (Text.ofWord i))
      rw [convert_str_bool, Text.trim_ofWord, readBool?_ofWord]

/-- Conversions respect the text of a literal. -/
theorem respected_sameText : Respected SameText where
  refl _ := rfl
  convert kind l l' h := by
    have heq : l.convert kind = l'.convert kind := by
      rw [← convert_text kind l, ← convert_text kind l', h]
    rw [heq]
    cases l'.convert kind with
    | error e => exact .error e
    | ok m => exact .ok rfl

/-! ## Reading literals -/

theorem ordinal?_text (l : Literal) : (str l.text).ordinal? = l.ordinal? := by
  cases l with
  | str s => rfl
  | bool b => cases b <;> rfl
  | int i =>
    show Text.readNat? (Text.cleanChars (Text.ofWord i).toList) = i.toInt.toNat?
    rw [Text.cleanChars_ofWord, Text.readNat?_ofWord]

theorem SameText.position {l l' : Literal} (h : SameText l l') : l.position = l'.position := by
  have ho : l.ordinal? = l'.ordinal? := by rw [← ordinal?_text l, ← ordinal?_text l', h]
  unfold Literal.position
  rw [ho, h]

theorem SameText.elementName {l l' : Literal} (h : SameText l l') :
    l.elementName = l'.elementName := by
  unfold Literal.elementName
  rw [h]

theorem SameText.textTest {l l' : Literal} (h : SameText l l') (kind : MatchKind) :
    l.textTest kind = l'.textTest kind := by
  unfold Literal.textTest
  rw [h]

theorem SameText.attributeTest {l l' : Literal} (h : SameText l l') (kind : MatchKind)
    (owner : Owner) (name : String) :
    l.attributeTest kind owner name = l'.attributeTest kind owner name := by
  unfold Literal.attributeTest
  rw [h.textTest]

end Literal

/-! ## Leaves -/

/-- Two leaves on the same path that differ at most in alike literals. -/
inductive Leaf.Alike (R : Literal → Literal → Prop) : Leaf → Leaf → Prop
  | equals (p : Path) {l l' : Literal} : R l l' → Alike R (.equals p l) (.equals p l')
  | contains (p : Path) {l l' : Literal} : R l l' → Alike R (.contains p l) (.contains p l')

theorem Operand.Alike.leaf {R : Literal → Literal → Prop} {a a' : Operand} (h : a.Alike R a') :
    Option.Rel (Leaf.Alike R) (Leaf.ofOperand? a) (Leaf.ofOperand? a') := by
  cases h with
  | value _ => exact .none
  | path _ => exact .none
  | containment p hl => exact .some (.contains p hl)
  | comparison ha hb =>
    -- a path has to stand against a value, on either side
    cases ha with
    | path p =>
      cases hb with
      | value hl => exact .some (.equals p hl)
      | _ => exact .none
    | value hl =>
      cases hb with
      | path p => exact .some (.equals p hl)
      | _ => exact .none
    | _ => exact .none

namespace Leaf.Alike

variable {leaf leaf' : Leaf}

/-- Leaves whose literals have the same text are given the same answer. -/
theorem answer? (h : leaf.Alike Literal.SameText leaf') : leaf.answer? = leaf'.answer? := by
  cases h with
  | equals p hl =>
    rcases p with (owner | owner | owner | axis | axis) | ⟨owner, name⟩
    · simp only [Leaf.answer?, hl.elementName]
    · simp only [Leaf.answer?, hl.position]
    · simp only [Leaf.answer?, hl.textTest]
    · simp only [Leaf.answer?, hl.elementName]
    · simp only [Leaf.answer?, hl.elementName]
    · simp only [Leaf.answer?, hl.attributeTest]
  | contains p hl =>
    rcases p with (owner | owner | owner | axis | axis) | ⟨owner, name⟩
    · rfl
    · rfl
    · simp only [Leaf.answer?, hl.textTest]
    · rfl
    · rfl
    · simp only [Leaf.answer?, hl.attributeTest]

theorem classify (h : leaf.Alike Literal.SameText leaf') : leaf.classify = leaf'.classify := by
  have hpath : leaf.path = leaf'.path := by cases h <;> rfl
  rw [Leaf.classify_eq, Leaf.classify_eq, h.answer?, hpath]

end Leaf.Alike

/-! ## Trees -/

/-- Alike trees whose literals have the same texts express the same condition, or fail alike. -/
theorem Expr.Alike.classify {e e' : Expr} (h : e.Alike Literal.SameText e') :
    e.classify = e'.classify := by
  refine (h.resolve Literal.respected_sameText).bind_eq fun a a' ha => ?_
  cases ha with
  | none => rfl
  | some ha =>
    have hl := ha.leaf
    simp only [Option.bind_some]
    generalize Leaf.ofOperand? _ = leaf at hl ⊢
    generalize Leaf.ofOperand? _ = leaf' at hl ⊢
    cases hl with
    | none => rfl
    | some hl => exact hl.classify

end ElementQuery
