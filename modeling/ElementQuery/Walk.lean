/-
Walking a conjunction. The conjuncts are visited from right to left, and each that expresses a
condition writes it into a query. One that expresses none is passed over, or ends the walk with an
error if the walk is strict; an error leaves what was written before it.

The walk keeps the subtrees still to be visited on a stack, so a chain of any length and shape is
walked in a loop.
-/
import ElementQuery.Condition

namespace ElementQuery

/-- A conjunct that was visited, and the condition found in it. -/
structure Visit where
  conjunct : Expr
  found : Option Classified

/-- The query and the visits that a walk leaves, and the error if it ended with one. -/
structure Walk where
  query : Query
  visits : List Visit
  result : Except Error Unit

namespace Walk

/-- A walk with a visit before it. -/
def after (v : Visit) (w : Walk) : Walk := { w with visits := v :: w.visits }

end Walk

/-- Writes what a visit found into a query. -/
def Query.write (q : Query) : Option Classified → Query
  | some found => found.condition.apply q
  | none => q

namespace Expr

/-- The condition found in a conjunct; a strict visit fails where there is none. -/
def visit (strict : Bool) (conjunct : Expr) : Except Error (Option Classified) :=
  match conjunct.classify with
  | .ok none => if strict then .error (.unsupported conjunct.display) else .ok none
  | found => found

theorem visit_of_error {strict : Bool} {c : Expr} {e : Error} (h : c.classify = .error e) :
    c.visit strict = .error e := by
  rw [visit, h]

theorem visit_of_some {strict : Bool} {c : Expr} {found : Classified}
    (h : c.classify = .ok (some found)) : c.visit strict = .ok (some found) := by
  rw [visit, h]

theorem visit_of_none {strict : Bool} {c : Expr} (h : c.classify = .ok none) :
    c.visit strict = if strict then .error (.unsupported c.display) else .ok none := by
  rw [visit, h]

/-- The number of nodes on a stack. -/
def stackSize (pending : List Expr) : Nat := pending.foldr (fun e n => e.size + n) 0

/-- Walks the subtrees on a stack. -/
def walkStack (strict : Bool) (pending : List Expr) (q : Query) : Walk :=
  match pending with
  | [] => ⟨q, [], .ok ()⟩
  | and l r :: pending => walkStack strict (r :: l :: pending) q
  | e :: pending =>
    match e.visit strict with
    | .ok found => (walkStack strict pending (q.write found)).after ⟨e, found⟩
    | .error err => ⟨q, [], .error err⟩
termination_by stackSize pending
decreasing_by
  · simp [stackSize, size]; omega
  · have : 0 < size e := by cases e <;> simp [size]
    simp [stackSize]; omega

/-- Walks a tree, writing into a query. -/
def walk (strict : Bool) (e : Expr) (q : Query) : Walk := walkStack strict [e] q

end Expr

end ElementQuery
