/-
Values of the caller may be written out. A tree in which some variables and calls with scalar
values are replaced by the literals that the values stand for comes to the same operand, or fails
with the same error, and is walked like the tree before.

A captured number that is no word differs from its literal as JSON, a number on one side and a
text on the other, so the two trees need not evaluate to equal values. They evaluate to values
that stand for the same literal and have no fields, and nothing else is read from a value.
-/
import ElementQuery.Proofs.Operand.Alike
import ElementQuery.Proofs.Walk.Alike

namespace ElementQuery

namespace Expr

/-- The second tree is the first with some variables and calls, whose values are scalars, replaced
by literals. -/
inductive Inlined : Expr → Expr → Prop
  | captured {x : String} {v : Json.Value} {l : Literal} (h : Literal.ofJson? v = some l) :
      Inlined (.captured x v) (.literal l)
  | call {f : String} {v : Json.Value} {l : Literal} (h : Literal.ofJson? v = some l) :
      Inlined (.call f v) (.literal l)
  | same (e : Expr) : Inlined e e
  | and {l r l' r' : Expr} : Inlined l l' → Inlined r r' → Inlined (.and l r) (.and l' r')
  | or {l r l' r' : Expr} : Inlined l l' → Inlined r r' → Inlined (.or l r) (.or l' r')
  | not {e e' : Expr} : Inlined e e' → Inlined (.not e) (.not e')
  | eq {l r l' r' : Expr} : Inlined l l' → Inlined r r' → Inlined (.eq l r) (.eq l' r')
  | contains {p : Path} {e e' : Expr} : Inlined e e' → Inlined (.contains p e) (.contains p e')
  | member {e e' : Expr} {field : String} :
      Inlined e e' → Inlined (.member e field) (.member e' field)
  | convert {kind : LiteralKind} {e e' : Expr} :
      Inlined e e' → Inlined (.convert kind e) (.convert kind e')

end Expr

/-! ## The same literals -/

/-- Conversions respect equality. -/
theorem Literal.respected_eq : Literal.Respected Eq where
  refl _ := rfl
  convert kind l l' h := by
    subst h
    cases l.convert kind with
    | error e => exact .error e
    | ok m => exact .ok rfl

theorem Operand.Alike.eq {a a' : Operand} (h : a.Alike Eq a') : a = a' := by
  induction h with
  | value hl => rw [hl]
  | path p => rfl
  | containment p hl => rw [hl]
  | comparison _ _ iha ihb => rw [iha, ihb]

/-- A scalar and its literal stand for the same literal, and neither has fields. -/
theorem Json.Value.Alike.of_ofJson? {v : Json.Value} {l : Literal}
    (h : Literal.ofJson? v = some l) : v.Alike Eq l.toJson := by
  constructor
  · rw [h, Literal.ofJson?_toJson]
    exact .some rfl
  · intro field
    have hv : v.get? field = none := by
      cases v with
      | object fields => cases h
      | _ => rfl
    have hl : l.toJson.get? field = none := by cases l <;> rfl
    rw [hv, hl]

namespace Expr.Inlined

theorem alike {e e' : Expr} (h : Inlined e e') : e.Alike Eq e' := by
  induction h with
  | captured h => exact .value rfl rfl (.of_ofJson? h)
  | call h => exact .value rfl rfl (.of_ofJson? h)
  | same e => exact .refl Literal.respected_eq e
  | and _ _ ihl ihr => exact .and ihl ihr
  | or _ _ ihl ihr => exact .or ihl ihr
  | not _ ih => exact .not ih
  | eq _ _ ihl ihr => exact .eq ihl ihr
  | contains _ ih => exact .contains _ ih
  | member _ ih => exact .member _ ih
  | convert _ ih => exact .convert _ ih

end Expr.Inlined

namespace Expr

/-- Trees that are alike down to equal literals come to the same operand. -/
theorem Alike.resolve_eq {e e' : Expr} (h : e.Alike Eq e') : e.resolve = e'.resolve := by
  refine (h.resolve Literal.respected_eq).eq_of_imp fun a a' ha => ?_
  cases ha with
  | none => rfl
  | some ha => rw [ha.eq]

theorem Alike.classify_eq {e e' : Expr} (h : e.Alike Eq e') : e.classify = e'.classify := by
  unfold Expr.classify
  rw [h.resolve_eq]

/-- A tree with values of the caller written out comes to the same operand as the tree before, or
fails with the same error; and both are walked alike, from any query and in either mode. -/
theorem resolve_and_walk_inlined {e e' : Expr} (h : Inlined e e') :
    e'.resolve = e.resolve ∧
    ∀ (strict : Bool) (q : Query), (e'.walk strict q).Alike (e.walk strict q) := by
  have ha := h.alike
  constructor
  · exact ha.resolve_eq.symm
  · intro strict q
    refine walk_alike strict ?_ q
    exact (ha.map_conjuncts fun _ _ h => h.classify_eq).symm

/-- A result below a conversion and a variable that is a number above the words, both written out:
the conversion fails, after the name to its right was written. -/
theorem resolve_and_walk_inlined_number :
    resolve (convert .int (literal (.str "seven"))) =
      resolve (convert .int (call "f" (.string "seven"))) ∧
    (walk true
      (and (eq (path (.member (.position .target))) (convert .int (literal (.str "seven"))))
        (eq (path (.member (.name .target))) (literal (.str "9223372036854775808")))) .empty).Alike
    (walk true
      (and (eq (path (.member (.position .target))) (convert .int (call "f" (.string "seven"))))
        (eq (path (.member (.name .target)))
          (captured "n" (.number (.unsigned 9223372036854775808 (by decide)))))) .empty) :=
  ⟨(resolve_and_walk_inlined (.convert (.call rfl))).1,
    (resolve_and_walk_inlined
      (.and (.eq (.same _) (.convert (.call rfl))) (.eq (.same _) (.captured rfl)))).2 true .empty⟩

end Expr

end ElementQuery
