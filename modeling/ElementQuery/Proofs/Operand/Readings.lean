/-
The two readings of a tree agree. As an operand a tree comes to a literal exactly if it evaluates
to a value that stands for this literal, and a tree that cannot be evaluated cannot be resolved
either, with the same error. Of a tree built only from literals, values of the caller, their fields
and conversions, the operand is the literal that the value stands for, or both are missing.

The readings part on trees that are something else than a value. These evaluate to nothing, while
resolving reads on into their operands and may fail there; a conversion passes this on. The object
of a field is only ever evaluated, so below a field there is one reading alone.
-/
import ElementQuery.Proofs.Operand.Alike

namespace ElementQuery

/-! ## Operands of values -/

/-- The operand that an evaluated tree is: the literal that its value stands for, if any. -/
def Operand.ofValue? (v : Option Json.Value) : Option Operand :=
  (v.bind Literal.ofJson?).map .value

theorem Operand.ofValue?_toJson (l : Literal) : ofValue? (some l.toJson) = some (.value l) := by
  rw [ofValue?, Option.bind_some, Literal.ofJson?_toJson]
  rfl

theorem Operand.ofValue?_eq_value_iff {v : Option Json.Value} {l : Literal} :
    ofValue? v = some (.value l) ↔ ∃ w, v = some w ∧ Literal.ofJson? w = some l := by
  unfold ofValue?
  constructor
  · intro h
    obtain ⟨l', hl', heq⟩ := Option.map_eq_some_iff.1 h
    cases heq
    exact Option.bind_eq_some_iff.1 hl'
  · rintro ⟨w, rfl, hw⟩
    rw [Option.bind_some, hw]
    rfl

theorem Agree.eq_map {α β : Type} {f : α → β} {x : Except Error α} {y : Except Error β}
    (h : Agree (fun a b => b = f a) x y) : y = x.map f := by
  cases h with
  | ok h => rw [h]; rfl
  | error e => rfl

namespace Expr

/-! ## Trees that hold a value -/

/-- A tree built only from literals, values of the caller, their fields and conversions. -/
def IsValue : Expr → Prop
  | literal _ | captured _ _ | call _ _ => True
  | member e _ | convert _ e => e.IsValue
  | _ => False

/-- The operand of a tree is that of its value, or both readings fail with the same error. -/
def Agrees (e : Expr) : Prop := Agree (fun v a => a = Operand.ofValue? v) e.evaluate e.resolve

/-- The object of a field is evaluated, whatever it is. -/
theorem agrees_member (e : Expr) (field : String) : (member e field).Agrees := by
  unfold Agrees
  rw [resolve]
  cases (member e field).evaluate with
  | error err => exact .error err
  | ok v => exact .ok rfl

/-- A literal is converted in one reading as it is, in the other as the value that was read. -/
theorem Agrees.convert {e : Expr} (h : e.Agrees) (kind : LiteralKind) :
    (convert kind e).Agrees := by
  refine Agree.bind h fun v a ha => ?_
  subst ha
  unfold Operand.ofValue?
  cases v.bind Literal.ofJson? with
  | none => exact .ok rfl
  | some l =>
    dsimp only [Option.map_some]
    cases l.convert kind with
    | error err => exact .error err
    | ok l' => exact .ok (Operand.ofValue?_toJson l').symm

theorem IsValue.agrees {e : Expr} (h : e.IsValue) : e.Agrees := by
  induction e with
  | literal l => exact .ok (Operand.ofValue?_toJson l).symm
  | captured x v => exact .ok rfl
  | call f v => exact .ok rfl
  | member e field _ => exact agrees_member e field
  | convert kind e ih => exact (ih h).convert kind
  | _ => exact h.elim

/-! ## Trees that hold none -/

/-- Neither reading finds a value in a tree, and evaluating it does not fail. -/
structure NoValue (e : Expr) : Prop where
  evaluate : e.evaluate = .ok none
  resolve : ∀ l, e.resolve ≠ .ok (some (.value l))

/-- A sequence comes to no value if what follows its first part never does. -/
theorem bind_ne_value {α : Type} {x : Except Error α} {f : α → Except Error (Option Operand)}
    (h : ∀ a, x = .ok a → ∀ l, f a ≠ .ok (some (.value l))) (l : Literal) :
    x >>= f ≠ .ok (some (.value l)) := by
  cases x with
  | error err => nofun
  | ok a => exact h a rfl l

theorem NoValue.convert {e : Expr} (h : e.NoValue) (kind : LiteralKind) :
    (convert kind e).NoValue := by
  constructor
  · rw [Expr.evaluate, h.evaluate]
    rfl
  · refine bind_ne_value fun a ha l heq => ?_
    split at heq
    · rename_i l'
      exact h.resolve l' ha
    · cases heq

theorem noValue_contains (p : Path) (e : Expr) : (contains p e).NoValue := by
  refine ⟨rfl, bind_ne_value fun a _ l heq => ?_⟩
  split at heq <;> cases heq

theorem noValue_eq (l r : Expr) : (eq l r).NoValue := by
  refine ⟨rfl, bind_ne_value fun a _ => bind_ne_value fun b _ m heq => ?_⟩
  split at heq <;> cases heq

/-- In every tree the readings agree, or neither of them finds a value. -/
theorem agrees_or_noValue (e : Expr) : e.Agrees ∨ e.NoValue := by
  induction e with
  | literal l => exact .inl (IsValue.agrees (e := literal l) trivial)
  | captured x v => exact .inl (IsValue.agrees (e := captured x v) trivial)
  | call f v => exact .inl (IsValue.agrees (e := call f v) trivial)
  | member e field _ => exact .inl (agrees_member e field)
  | convert kind e ih =>
    rcases ih with h | h
    · exact .inl (h.convert kind)
    · exact .inr (h.convert kind)
  | contains p e _ => exact .inr (noValue_contains p e)
  | eq l r _ _ => exact .inr (noValue_eq l r)
  | path p => exact .inr ⟨rfl, fun l heq => by cases heq⟩
  | and l r _ _ => exact .inr ⟨rfl, fun m heq => by cases heq⟩
  | or l r _ _ => exact .inr ⟨rfl, fun m heq => by cases heq⟩
  | not e _ => exact .inr ⟨rfl, fun l heq => by cases heq⟩

/-! ## Both readings -/

/-- A tree comes to a literal exactly if it evaluates to a value that stands for it. Where it
cannot be evaluated, it cannot be resolved either, with the same error. A tree built only from
literals, values of the caller, their fields and conversions comes to what its value stands for,
whether that is a literal, nothing or an error. -/
theorem resolve_and_evaluate (e : Expr) :
    (∀ l, e.resolve = .ok (some (.value l)) ↔
      ∃ v, e.evaluate = .ok (some v) ∧ Literal.ofJson? v = some l) ∧
    (∀ err, e.evaluate = .error err → e.resolve = .error err) ∧
    (e.IsValue →
      e.resolve = e.evaluate.map fun v => (v.bind Literal.ofJson?).map Operand.value) := by
  refine ⟨fun l => ?_, fun err herr => ?_, fun h => h.agrees.eq_map⟩
  · rcases e.agrees_or_noValue with h | h
    · rw [h.eq_map]
      cases e.evaluate with
      | error err => simp [Except.map]
      | ok v => simp [Except.map, Operand.ofValue?_eq_value_iff]
    · simp [h.resolve l, h.evaluate]
  · rcases e.agrees_or_noValue with h | h
    · rw [h.eq_map, herr]
      rfl
    · rw [h.evaluate] at herr
      cases herr

/-- A field of a conversion that fails, and a conversion of a field that is a number in a text. -/
theorem resolve_and_evaluate_fields :
    (member (convert .int (call "f" (.string "seven"))) "key").resolve =
      .error (.malformed .integerConversion "seven") ∧
    (convert .int (member (captured "row" (.object [("n", .string " 7 ")])) "n")).resolve =
      .ok (some (.value (.int 7))) := by
  have hfails := (resolve_and_evaluate
    (member (convert .int (call "f" (.string "seven"))) "key")).2.1
  have hreads := (resolve_and_evaluate
    (convert .int (member (captured "row" (.object [("n", .string " 7 ")])) "n"))).2.2 trivial
  exact ⟨hfails _ rfl, hreads.trans rfl⟩

end Expr

end ElementQuery
