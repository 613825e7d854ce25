/-
Trees that hold alike values come to alike operands. What is meant by alike literals is left open:
any relation of literals that conversions respect will do. Two values of the caller are alike if
they stand for alike literals, or both for none, and have the same fields; two trees are alike if
they have the same shape down to alike values, whether a value is written out, captured or
returned by a call.

Both readings of a tree respect this: what it comes to as an operand and what it evaluates to are
alike, and where one reading fails, so does the other with the same error.
-/
import ElementQuery.Operand

namespace ElementQuery

/-! ## Results that agree -/

/-- Two results are related values or the same error. -/
inductive Agree {α β : Type} (R : α → β → Prop) : Except Error α → Except Error β → Prop
  | ok {a : α} {b : β} (h : R a b) : Agree R (.ok a) (.ok b)
  | error (e : Error) : Agree R (.error e) (.error e)

namespace Agree

variable {α β γ δ : Type} {R : α → β → Prop} {S : γ → δ → Prop}

theorem bind {x : Except Error α} {y : Except Error β} {f : α → Except Error γ}
    {g : β → Except Error δ} (h : Agree R x y) (hfg : ∀ a b, R a b → Agree S (f a) (g b)) :
    Agree S (x >>= f) (y >>= g) := by
  cases h with
  | ok h => exact hfg _ _ h
  | error e => exact .error e

theorem bind_eq {x : Except Error α} {y : Except Error β} {f : α → Except Error γ}
    {g : β → Except Error γ} (h : Agree R x y) (hfg : ∀ a b, R a b → f a = g b) :
    x >>= f = y >>= g := by
  cases h with
  | ok h => exact hfg _ _ h
  | error e => rfl

theorem eq_of_imp {R : α → α → Prop} {x y : Except Error α} (h : Agree R x y)
    (hR : ∀ a b, R a b → a = b) : x = y := by
  cases h with
  | ok h => rw [hR _ _ h]
  | error e => rfl

end Agree

/-! ## Alike literals, values and operands -/

/-- A relation of literals that conversions respect. -/
structure Literal.Respected (R : Literal → Literal → Prop) : Prop where
  refl : ∀ l, R l l
  convert : ∀ kind l l', R l l' → Agree R (l.convert kind) (l'.convert kind)

section

variable (R : Literal → Literal → Prop)

/-- Two values that stand for alike literals, or for none, and have the same fields. -/
structure Json.Value.Alike (v v' : Json.Value) : Prop where
  literal : Option.Rel R (Literal.ofJson? v) (Literal.ofJson? v')
  fields : ∀ field, v.get? field = v'.get? field

/-- The value of a node that is no more than a value of the caller or a literal. -/
def Expr.value? : Expr → Option Json.Value
  | literal l => some l.toJson
  | captured _ v => some v
  | call _ v => some v
  | _ => none

/-- Two trees of the same shape down to alike values. -/
inductive Expr.Alike : Expr → Expr → Prop
  | value {e e' : Expr} {v v' : Json.Value} (he : e.value? = some v) (he' : e'.value? = some v')
      (h : v.Alike R v') : Alike e e'
  | path (p : Path) : Alike (.path p) (.path p)
  | and {l r l' r' : Expr} : Alike l l' → Alike r r' → Alike (.and l r) (.and l' r')
  | or {l r l' r' : Expr} : Alike l l' → Alike r r' → Alike (.or l r) (.or l' r')
  | not {e e' : Expr} : Alike e e' → Alike (.not e) (.not e')
  | eq {l r l' r' : Expr} : Alike l l' → Alike r r' → Alike (.eq l r) (.eq l' r')
  | contains (p : Path) {e e' : Expr} : Alike e e' → Alike (.contains p e) (.contains p e')
  | member {e e' : Expr} (field : String) : Alike e e' → Alike (.member e field) (.member e' field)
  | convert (kind : LiteralKind) {e e' : Expr} :
      Alike e e' → Alike (.convert kind e) (.convert kind e')

/-- Two operands that differ at most in alike literals. -/
inductive Operand.Alike : Operand → Operand → Prop
  | value {l l' : Literal} : R l l' → Alike (.value l) (.value l')
  | path (p : Path) : Alike (.path p) (.path p)
  | containment (p : Path) {l l' : Literal} :
      R l l' → Alike (.containment p l) (.containment p l')
  | comparison {a b a' b' : Operand} :
      Alike a a' → Alike b b' → Alike (.comparison a b) (.comparison a' b')

end

namespace Json.Value.Alike

variable {R : Literal → Literal → Prop}

theorem refl (hR : Literal.Respected R) (v : Json.Value) : v.Alike R v := by
  refine ⟨?_, fun field => rfl⟩
  cases Literal.ofJson? v with
  | none => exact .none
  | some l => exact .some (hR.refl l)

theorem toJson {l l' : Literal} (h : R l l') : l.toJson.Alike R l'.toJson := by
  constructor
  · rw [Literal.ofJson?_toJson, Literal.ofJson?_toJson]
    exact .some h
  · intro field
    cases l <;> cases l' <;> rfl

theorem literals {v v' : Option Json.Value} (h : Option.Rel (Json.Value.Alike R) v v') :
    Option.Rel R (v.bind Literal.ofJson?) (v'.bind Literal.ofJson?) := by
  cases h with
  | none => exact .none
  | some h => exact h.literal

end Json.Value.Alike

/-! ## Alike trees -/

namespace Expr.Alike

variable {R : Literal → Literal → Prop}

theorem refl (hR : Literal.Respected R) (e : Expr) : e.Alike R e := by
  induction e with
  | and l r ihl ihr => exact .and ihl ihr
  | or l r ihl ihr => exact .or ihl ihr
  | not e ih => exact .not ih
  | eq l r ihl ihr => exact .eq ihl ihr
  | contains p e ih => exact .contains p ih
  | literal l => exact .value rfl rfl (.refl hR _)
  | path p => exact .path p
  | captured x v => exact .value rfl rfl (.refl hR v)
  | call f v => exact .value rfl rfl (.refl hR v)
  | member e field ih => exact .member field ih
  | convert kind e ih => exact .convert kind ih

theorem evaluate_of_value? {e : Expr} {v : Json.Value} (h : e.value? = some v) :
    e.evaluate = .ok (some v) := by
  cases e <;> cases h <;> rfl

theorem resolve_of_value? {e : Expr} {v : Json.Value} (h : e.value? = some v) :
    e.resolve = .ok ((Literal.ofJson? v).map .value) := by
  cases e with
  | literal l =>
    cases h
    rw [Literal.ofJson?_toJson]
    rfl
  | _ => cases h <;> rfl

theorem conjuncts_of_value? {e : Expr} {v : Json.Value} (h : e.value? = some v) :
    e.conjuncts = [e] := by
  cases e <;> cases h <;> rfl

/-- Alike trees have alike conjuncts, one by one. -/
theorem map_conjuncts {α : Type} {f : Expr → α} (hf : ∀ e e' : Expr, e.Alike R e' → f e = f e')
    {e e' : Expr} (h : e.Alike R e') : e.conjuncts.map f = e'.conjuncts.map f := by
  induction h with
  | and _ _ ihl ihr => rw [conjuncts, conjuncts, List.map_append, List.map_append, ihl, ihr]
  | value he he' h =>
    rw [conjuncts_of_value? he, conjuncts_of_value? he']
    exact congrArg ([·]) (hf _ _ (.value he he' h))
  -- any other node is its own only conjunct
  | path p => rfl
  | or hl hr _ _ => exact congrArg ([·]) (hf _ _ (.or hl hr))
  | not h _ => exact congrArg ([·]) (hf _ _ (.not h))
  | eq hl hr _ _ => exact congrArg ([·]) (hf _ _ (.eq hl hr))
  | contains p h _ => exact congrArg ([·]) (hf _ _ (.contains p h))
  | member field h _ => exact congrArg ([·]) (hf _ _ (.member field h))
  | convert kind h _ => exact congrArg ([·]) (hf _ _ (.convert kind h))

/-- Alike trees evaluate to alike values, or fail with the same error. -/
theorem evaluate (hR : Literal.Respected R) {e e' : Expr} (h : e.Alike R e') :
    Agree (Option.Rel (Json.Value.Alike R)) e.evaluate e'.evaluate := by
  induction h with
  | value he he' h =>
    rw [evaluate_of_value? he, evaluate_of_value? he']
    exact .ok (.some h)
  | member field _ ih =>
    refine ih.bind fun v v' hv => .ok ?_
    cases hv with
    | none => exact .none
    | some hv =>
      -- fields are the same, so what is read from them is the same value
      simp only [Option.bind_some, hv.fields field]
      cases Json.Value.get? field _ with
      | none => exact .none
      | some w => exact .some (.refl hR w)
  | convert kind _ ih =>
    refine ih.bind fun v v' hv => ?_
    have hl := Json.Value.Alike.literals hv
    generalize v.bind Literal.ofJson? = l at hl ⊢
    generalize v'.bind Literal.ofJson? = l' at hl ⊢
    cases hl with
    | none => exact .ok .none
    | some hl => exact (hR.convert kind _ _ hl).bind fun l l' hl => .ok (.some (.toJson hl))
  | _ => exact .ok .none

/-- What alike values stand for is alike. -/
theorem operands {l l' : Option Literal} (h : Option.Rel R l l') :
    Option.Rel (Operand.Alike R) (l.map .value) (l'.map .value) := by
  cases h with
  | none => exact .none
  | some h => exact .some (.value h)

/-- Alike trees come to alike operands, or fail with the same error. -/
theorem resolve (hR : Literal.Respected R) {e e' : Expr} (h : e.Alike R e') :
    Agree (Option.Rel (Operand.Alike R)) e.resolve e'.resolve := by
  induction h with
  | value he he' h =>
    rw [resolve_of_value? he, resolve_of_value? he']
    exact .ok (operands h.literal)
  | path p => exact .ok (.some (.path p))
  | contains p _ ih =>
    refine ih.bind fun a a' ha => ?_
    cases ha with
    | none => exact .ok .none
    | some ha =>
      cases ha with
      | value hl => exact .ok (.some (.containment p hl))
      | _ => exact .ok .none
  | member field h _ =>
    exact (evaluate hR (.member field h)).bind fun v v' hv =>
      .ok (operands (Json.Value.Alike.literals hv))
  | convert kind _ ih =>
    refine ih.bind fun a a' ha => ?_
    cases ha with
    | none => exact .ok .none
    | some ha =>
      cases ha with
      | value hl =>
        exact (hR.convert kind _ _ hl).bind fun l l' hl => .ok (.some (.value hl))
      | _ => exact .ok .none
  | eq _ _ ihl ihr =>
    refine ihl.bind fun a a' ha => ?_
    refine ihr.bind fun b b' hb => ?_
    cases ha with
    | none => exact .ok .none
    | some ha =>
      cases hb with
      | none => exact .ok .none
      | some hb => exact .ok (.some (.comparison ha hb))
  | _ => exact .ok .none

end Expr.Alike

end ElementQuery
