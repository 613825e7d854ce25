/-
Conversions compose. A literal that has been converted to a kind stays as it is when it is converted
to that kind again, and what a literal converts to is decided by its text; so a conversion over one
to the same kind, or over one to a text, comes to what it comes to without that, in both readings of
a tree.

An integer survives the way through its text. A text is read as an integer exactly if it is, between
white space, a numeral of a number that a word holds; else the error carries the text as it was.
-/
import ElementQuery.Proofs.Literal.Text

namespace ElementQuery

/-! ## Literals -/

namespace Literal

theorem convert_of_kind {l : Literal} {k : LiteralKind} (h : l.kind = k) : l.convert k = .ok l :=
  if_pos h

theorem convert_str (l : Literal) : l.convert .str = .ok (str l.text) := by
  cases l <;> rfl

/-- What a literal is converted to has the kind asked for. -/
theorem kind_of_convert {k : LiteralKind} {l m : Literal} (h : l.convert k = .ok m) :
    m.kind = k := by
  rw [← convert_text] at h
  cases k with
  | str =>
    cases h
    rfl
  | int =>
    rw [convert_str_int] at h
    split at h
    · cases h
      rfl
    · cases h
  | bool =>
    rw [convert_str_bool] at h
    split at h
    · cases h
      rfl
    · cases h

/-- A literal converted to a kind on the way, or to a text, converts as it does at once. -/
theorem bind_convert {j k : LiteralKind} (hj : j = k ∨ j = .str) (l : Literal) :
    (l.convert j).bind (convert k) = l.convert k := by
  rcases hj with rfl | rfl
  · cases h : l.convert j with
    | error e => rfl
    | ok m => exact convert_of_kind (kind_of_convert h)
  · rw [convert_str]
    exact convert_text k l

/-- A text converts to an integer exactly if it is a numeral of it, between white space. -/
theorem convert_str_int_eq_ok_iff {s : String} {i : Int64} :
    (str s).convert .int = .ok (int i) ↔ Text.Numeral ['+', '-'] (Text.trim s.toList) i.toInt := by
  rw [convert_str_int, ← Text.readWord?_eq_some_iff]
  cases Text.readWord? (Text.trim s.toList) <;> simp

/-- A text fails to convert to an integer exactly if it is no numeral of a number that a word
holds, and the error carries it as it was. -/
theorem convert_str_int_eq_error_iff {s : String} {e : Error} :
    (str s).convert .int = .error e ↔
      e = .malformed .integerConversion s ∧
        ∀ z, Text.Numeral ['+', '-'] (Text.trim s.toList) z → Text.OutOfRange z := by
  rw [convert_str_int, ← Text.readWord?_eq_none_iff]
  cases Text.readWord? (Text.trim s.toList) <;> simp [eq_comm]

end Literal

/-! ## Trees -/

namespace Expr

theorem resolve_convert (k : LiteralKind) (e : Expr) :
    (convert k e).resolve = match e.resolve with
      | .ok (some (.value l)) => (l.convert k).map fun m => some (.value m)
      | .ok _ => .ok none
      | .error err => .error err := by
  rw [resolve]
  cases e.resolve with
  | error err => rfl
  | ok a =>
    rcases a with _ | (l | p | ⟨p, l⟩ | ⟨a, b⟩)
    case some.value =>
      dsimp only [bind, Except.bind]
      cases l.convert k <;> rfl
    all_goals rfl

theorem evaluate_convert (k : LiteralKind) (e : Expr) :
    (convert k e).evaluate = match e.evaluate.map (·.bind Literal.ofJson?) with
      | .ok (some l) => (l.convert k).map fun m => some m.toJson
      | .ok none => .ok none
      | .error err => .error err := by
  rw [evaluate]
  cases e.evaluate with
  | error err => rfl
  | ok v =>
    dsimp only [bind, Except.bind, Except.map]
    cases v.bind Literal.ofJson? with
    | none => rfl
    | some l => cases l.convert k <;> rfl

variable {j k : LiteralKind}

/-- A conversion on the way, to the same kind or to a text, changes nothing for the operand. -/
theorem resolve_convert_convert (hj : j = k ∨ j = .str) (e : Expr) :
    (convert k (convert j e)).resolve = (convert k e).resolve := by
  rw [resolve_convert k (convert j e), resolve_convert j e, resolve_convert k e]
  cases e.resolve with
  | error err => rfl
  | ok a =>
    rcases a with _ | (l | p | ⟨p, l⟩ | ⟨a, b⟩)
    case some.value =>
      dsimp only
      rw [← Literal.bind_convert hj l]
      cases l.convert j <;> rfl
    all_goals rfl

/-- A conversion on the way, to the same kind or to a text, changes nothing for the value. -/
theorem evaluate_convert_convert (hj : j = k ∨ j = .str) (e : Expr) :
    (convert k (convert j e)).evaluate = (convert k e).evaluate := by
  rw [evaluate_convert k (convert j e), evaluate_convert j e, evaluate_convert k e]
  cases e.evaluate.map (·.bind Literal.ofJson?) with
  | error err => rfl
  | ok a =>
    cases a with
    | none => rfl
    | some l =>
      dsimp only
      rw [← Literal.bind_convert hj l]
      cases l.convert j with
      | error err => rfl
      | ok m =>
        simp only [Except.map, Option.bind_some, Literal.ofJson?_toJson]
        rfl

/-- Of the object of a field only the value counts. -/
theorem resolve_member_congr {e e' : Expr} (h : e.evaluate = e'.evaluate) (field : String) :
    (member e field).resolve = (member e' field).resolve := by
  rw [resolve, resolve, evaluate, evaluate, h]

/-- Conversions compose, in the operand and in the value of a tree, and below a field: a conversion
over one to its own kind, or over one to a text, comes to what it comes to without that, be it a
literal, nothing or an error. An integer converted to a text and back is itself. A text converts to
an integer exactly if it is a numeral of it between white space, with a sign or without; a text that
is no numeral, or one of a number that no word holds, is an error that carries the text as it was. -/
theorem conversions_compose :
    (∀ (e : Expr) (k : LiteralKind),
      (convert k (convert k e)).resolve = (convert k e).resolve ∧
      (convert k (convert .str e)).resolve = (convert k e).resolve ∧
      (convert k (convert k e)).evaluate = (convert k e).evaluate ∧
      (convert k (convert .str e)).evaluate = (convert k e).evaluate ∧
      ∀ field,
        (member (convert k (convert k e)) field).resolve = (member (convert k e) field).resolve ∧
        (member (convert k (convert .str e)) field).resolve =
          (member (convert k e) field).resolve) ∧
    (∀ i, (convert .int (convert .str (literal (.int i)))).resolve =
      .ok (some (.value (.int i)))) ∧
    ∀ s : String,
      (∀ i, (convert .int (literal (.str s))).resolve = .ok (some (.value (.int i))) ↔
        Text.Numeral ['+', '-'] (Text.trim s.toList) i.toInt) ∧
      ∀ e, (convert .int (literal (.str s))).resolve = .error e ↔
        e = .malformed .integerConversion s ∧
          ∀ z, Text.Numeral ['+', '-'] (Text.trim s.toList) z → Text.OutOfRange z := by
  refine ⟨fun e k => ?_, fun i => ?_, fun s => ⟨fun i => ?_, fun e => ?_⟩⟩
  · have hself := evaluate_convert_convert (.inl rfl : k = k ∨ k = .str) e
    have hstr := evaluate_convert_convert (.inr rfl : LiteralKind.str = k ∨ _) e
    refine ⟨resolve_convert_convert (.inl rfl) e, resolve_convert_convert (.inr rfl) e, hself, hstr,
      fun field => ?_⟩
    exact ⟨resolve_member_congr hself field, resolve_member_congr hstr field⟩
  · rw [resolve_convert_convert (.inr rfl)]
    rfl
  · rw [resolve_convert, ← Literal.convert_str_int_eq_ok_iff]
    dsimp only [resolve]
    cases (Literal.str s).convert .int <;> simp [Except.map]
  · rw [resolve_convert, ← Literal.convert_str_int_eq_error_iff]
    dsimp only [resolve]
    cases (Literal.str s).convert .int <;> simp [Except.map]

/-- The least integer that a word holds, between white space, and the first that is too great. -/
theorem conversions_compose_limits :
    (convert .int (literal (.str " -9223372036854775808\t"))).resolve =
      .ok (some (.value (.int Int64.minValue))) ∧
    (convert .int (literal (.str "+9223372036854775808"))).resolve =
      .error (.malformed .integerConversion "+9223372036854775808") := by
  have hdigits : Text.Digits "9223372036854775808".toList 9223372036854775808 :=
    ⟨by decide, List.all_eq_true.1 rfl, by decide⟩
  constructor
  · refine ((conversions_compose.2.2 _).1 _).2 ?_
    have htrim : Text.trim " -9223372036854775808\t".toList =
        '-' :: "9223372036854775808".toList := by decide
    rw [htrim]
    exact .minus (by simp) hdigits
  · refine ((conversions_compose.2.2 _).2 _).2 ⟨rfl, fun z hz => ?_⟩
    have htrim : Text.trim "+9223372036854775808".toList =
        '+' :: "9223372036854775808".toList := by decide
    rw [htrim] at hz
    cases hz with
    | bare hd => exact absurd rfl (hd.head_ne '+' rfl)
    | plus _ hd =>
      rw [← hd.value, hdigits.value]
      exact .inr (by decide)

end Expr

end ElementQuery
