/-
Predicate trees. A tree is built from connectives, comparisons, containment tests, literals, paths
and values of the caller: captured variables and calls, which carry the value they had, the
fields read from them, and conversions.
-/
import ElementQuery.Literal
import ElementQuery.Path

namespace ElementQuery

/-- A node of a predicate tree. -/
inductive Expr where
  | and (left right : Expr)
  | or (left right : Expr)
  | not (operand : Expr)
  | eq (left right : Expr)
  /-- Whether the text at a path contains another text. -/
  | contains (subject : Path) (substring : Expr)
  | literal (l : Literal)
  | path (p : Path)
  /-- A variable of the caller and its value. -/
  | captured (name : String) (value : Json.Value)
  /-- A call of a function of the caller and its result. -/
  | call (function : String) (result : Json.Value)
  /-- A field of a value of the caller. -/
  | member (object : Expr) (field : String)
  | convert (kind : LiteralKind) (operand : Expr)

instance : Inhabited Expr := ⟨.literal (.bool false)⟩

namespace Expr

/-- The conjunction of conditions, nested to the left. -/
def all : List Expr → Option Expr
  | [] => none
  | e :: es => some (es.foldl and e)

/-- The number of nodes. -/
def size : Expr → Nat
  | and l r | or l r | eq l r => l.size + r.size + 1
  | not e | contains _ e | member e _ | convert _ e => e.size + 1
  | literal _ | path _ | captured _ _ | call _ _ => 1

/-- The conditions that a conjunction joins, from left to right: the largest subtrees that are
themselves no conjunction. -/
def conjuncts : Expr → List Expr
  | and l r => l.conjuncts ++ r.conjuncts
  | e => [e]

theorem conjuncts_foldl_and (e : Expr) (es : List Expr) :
    (es.foldl and e).conjuncts = e.conjuncts ++ es.flatMap conjuncts := by
  induction es generalizing e with
  | nil => simp
  | cons e' es ih => rw [List.foldl_cons, ih, conjuncts, List.flatMap_cons, List.append_assoc]

/-- The conjunction of conditions joins the conjuncts of each, from left to right. -/
theorem conjuncts_all {es : List Expr} {e : Expr} (h : all es = some e) :
    e.conjuncts = es.flatMap conjuncts := by
  cases es with
  | nil => cases h
  | cons e' es =>
    cases h
    rw [conjuncts_foldl_and, List.flatMap_cons]

/-- A conjunct is no conjunction. -/
theorem conjuncts_of_mem {e c : Expr} (h : c ∈ e.conjuncts) : c.conjuncts = [c] := by
  induction e with
  | and l r ihl ihr =>
    rw [conjuncts, List.mem_append] at h
    rcases h with h | h
    · exact ihl h
    · exact ihr h
  | _ =>
    rw [conjuncts, List.mem_singleton] at h
    · subst h
      rfl
    · simp

/-- Whether two trees are equal, where values of the caller are compared as JSON. -/
def same : Expr → Expr → Bool
  | and l r, and l' r' | or l r, or l' r' | eq l r, eq l' r' => same l l' && same r r'
  | not e, not e' => same e e'
  | contains p e, contains p' e' => p == p' && same e e'
  | literal l, literal l' => l == l'
  | path p, path p' => p == p'
  | captured x v, captured x' v' | call x v, call x' v' => x == x' && v.same v'
  | member e f, member e' f' => same e e' && f == f'
  | convert k e, convert k' e' => k == k' && same e e'
  | _, _ => false

end Expr

end ElementQuery
