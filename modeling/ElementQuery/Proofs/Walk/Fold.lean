/-
The walk of a conjunction as a fold: whatever the shape of the tree, its conjuncts are visited from
right to left, each once, and each visit writes what it found; the first visit that fails ends the
walk with what was written before it. So the walk depends on the tree only through its conjuncts.

The invariant of the loop is that the conjuncts still to be visited are those of the subtrees on
the stack, from the top down and each subtree from right to left.
-/
import ElementQuery.Walk

namespace ElementQuery

/-- Writes what visits found into a query, one after another. -/
def Query.writeAll (q : Query) (visits : List Visit) : Query :=
  visits.foldl (fun q v => q.write v.found) q

@[simp] theorem Query.writeAll_nil (q : Query) : q.writeAll [] = q := rfl

@[simp] theorem Query.writeAll_cons (q : Query) (v : Visit) (visits : List Visit) :
    q.writeAll (v :: visits) = (q.write v.found).writeAll visits := rfl

namespace Expr

/-! ## Visiting a list of conjuncts -/

/-- Visits conjuncts in a row, up to the first that fails. -/
def visitAll (strict : Bool) : List Expr → Query → Walk
  | [], q => ⟨q, [], .ok ()⟩
  | c :: cs, q =>
    match c.visit strict with
    | .ok found => (visitAll strict cs (q.write found)).after ⟨c, found⟩
    | .error err => ⟨q, [], .error err⟩

/-- The conjuncts that a stack of subtrees still holds, in the order in which they are visited. -/
def pendingConjuncts (pending : List Expr) : List Expr :=
  pending.flatMap fun e => e.conjuncts.reverse

theorem pendingConjuncts_and (l r : Expr) (pending : List Expr) :
    pendingConjuncts (and l r :: pending) = pendingConjuncts (r :: l :: pending) := by
  simp [pendingConjuncts, conjuncts]

theorem conjuncts_of_not_and {e : Expr} (h : ∀ l r, e ≠ and l r) : e.conjuncts = [e] := by
  cases e with
  | and l r => exact absurd rfl (h l r)
  | _ => rfl

theorem pendingConjuncts_of_not_and {e : Expr} (h : ∀ l r, e ≠ and l r) (pending : List Expr) :
    pendingConjuncts (e :: pending) = e :: pendingConjuncts pending := by
  simp [pendingConjuncts, conjuncts_of_not_and h]

theorem walkStack_eq_visitAll (strict : Bool) (pending : List Expr) (q : Query) :
    walkStack strict pending q = visitAll strict (pendingConjuncts pending) q := by
  fun_induction walkStack strict pending q with
  | case1 q => rfl
  -- both sides of a conjunction go back on the stack and hold the same conjuncts in the same order
  | case2 q l r pending ih => rw [ih, pendingConjuncts_and]
  | case3 q e pending hne found hv ih =>
    rw [pendingConjuncts_of_not_and hne, visitAll, hv, ih]
  | case4 q e pending hne err hv =>
    rw [pendingConjuncts_of_not_and hne, visitAll, hv]

theorem walk_eq_visitAll (strict : Bool) (e : Expr) (q : Query) :
    e.walk strict q = visitAll strict e.conjuncts.reverse q := by
  rw [walk, walkStack_eq_visitAll]
  simp [pendingConjuncts]

/-! ## A conjunct alone -/

section

variable {strict : Bool} {e : Expr} (hne : ∀ l r, e ≠ and l r)

include hne

theorem walk_of_visit_ok {found : Option Classified} (h : e.visit strict = .ok found) (q : Query) :
    e.walk strict q = ⟨q.write found, [⟨e, found⟩], .ok ()⟩ := by
  rw [walk_eq_visitAll, conjuncts_of_not_and hne]
  simp only [List.reverse_singleton, visitAll, h]
  rfl

theorem walk_of_visit_error {err : Error} (h : e.visit strict = .error err) (q : Query) :
    e.walk strict q = ⟨q, [], .error err⟩ := by
  rw [walk_eq_visitAll, conjuncts_of_not_and hne]
  simp only [List.reverse_singleton, visitAll, h]

end

/-! ## Runs -/

/-- The visits of a run: they succeed, and they are those of all conjuncts or of the conjuncts
before the first that fails. -/
theorem visitAll_cases (strict : Bool) (cs : List Expr) (q : Query) :
    ∃ visits : List Visit, (∀ v ∈ visits, v.conjunct.visit strict = .ok v.found) ∧
      (visits.map Visit.conjunct = cs ∧
          visitAll strict cs q = ⟨q.writeAll visits, visits, .ok ()⟩ ∨
        ∃ c rest err, cs = visits.map Visit.conjunct ++ c :: rest ∧ c.visit strict = .error err ∧
          visitAll strict cs q = ⟨q.writeAll visits, visits, .error err⟩) := by
  induction cs generalizing q with
  | nil => exact ⟨[], by simp, .inl ⟨rfl, rfl⟩⟩
  | cons c cs ih =>
    cases hv : c.visit strict with
    | error err => exact ⟨[], by simp, .inr ⟨c, cs, err, rfl, hv, by simp [visitAll, hv]⟩⟩
    | ok found =>
      obtain ⟨visits, hvisits, hrun⟩ := ih (q.write found)
      refine ⟨⟨c, found⟩ :: visits, ?_, ?_⟩
      · intro v hmem
        rcases List.mem_cons.1 hmem with rfl | hmem
        · exact hv
        · exact hvisits v hmem
      · rcases hrun with ⟨hcs, hw⟩ | ⟨c', rest, err, hcs, herr, hw⟩
        · exact .inl ⟨by simp [hcs], by simp [visitAll, hv, hw, Walk.after]⟩
        · exact .inr ⟨c', rest, err, by simp [hcs], herr, by simp [visitAll, hv, hw, Walk.after]⟩

/-- A walk succeeds exactly if every conjunct is visited with success. -/
theorem result_walk_eq_ok_iff {strict : Bool} {e : Expr} {q : Query} :
    (e.walk strict q).result = .ok () ↔ ∀ c ∈ e.conjuncts, ∃ found, c.visit strict = .ok found := by
  rw [walk_eq_visitAll]
  obtain ⟨visits, hvisits, ⟨hcs, hw⟩ | ⟨c, rest, err, hcs, herr, hw⟩⟩ :=
    visitAll_cases strict e.conjuncts.reverse q
  · simp only [hw, true_iff]
    intro c hc
    rw [← List.mem_reverse, ← hcs] at hc
    obtain ⟨v, hv, rfl⟩ := List.mem_map.1 hc
    exact ⟨v.found, hvisits v hv⟩
  · simp only [hw, reduceCtorEq, false_iff]
    intro h
    have hc : c ∈ e.conjuncts := by rw [← List.mem_reverse, hcs]; simp
    obtain ⟨found, hf⟩ := h c hc
    rw [herr] at hf
    cases hf

/-- The walk of a conjunction visits its conjuncts from right to left, each once. If all visits
succeed, so does the walk, with the query into which they were written in this order; else it ends
with the error of the rightmost conjunct that fails, and the query holds what the conjuncts to the
right of it wrote. Trees with the same conjuncts are walked alike. -/
theorem walk_folds_conjuncts (strict : Bool) (e : Expr) (q : Query) :
    (∃ visits : List Visit, (∀ v ∈ visits, v.conjunct.visit strict = .ok v.found) ∧
      (visits.map Visit.conjunct = e.conjuncts.reverse ∧
          e.walk strict q = ⟨q.writeAll visits, visits, .ok ()⟩ ∨
        ∃ left c right err, e.conjuncts = left ++ c :: right ∧ c.visit strict = .error err ∧
          visits.map Visit.conjunct = right.reverse ∧
          e.walk strict q = ⟨q.writeAll visits, visits, .error err⟩)) ∧
    ∀ e' : Expr, e'.conjuncts = e.conjuncts → e'.walk strict q = e.walk strict q := by
  constructor
  · obtain ⟨visits, hvisits, hrun⟩ := visitAll_cases strict e.conjuncts.reverse q
    rw [← walk_eq_visitAll] at hrun
    refine ⟨visits, hvisits, ?_⟩
    rcases hrun with h | ⟨c, rest, err, hcs, herr, hw⟩
    · exact .inl h
    · refine .inr ⟨rest.reverse, c, (visits.map Visit.conjunct).reverse, err, ?_, herr, ?_, hw⟩
      · rw [← List.reverse_reverse e.conjuncts, hcs]
        simp
      · rw [List.reverse_reverse]
  · intro e' he
    rw [walk_eq_visitAll, walk_eq_visitAll, he]

/-- A chain nested to the right and the same chain nested to the left, with a conjunct in the
middle that fails. -/
theorem walk_folds_conjuncts_regrouped :
    (walk false (and (eq (path (.member (.text .target))) (literal (.str "a")))
        (and (eq (path (.member (.position .target))) (literal (.int 0)))
          (eq (path (.member (.name .target))) (literal (.str "td"))))) .empty) =
      (walk false (and (and (eq (path (.member (.text .target))) (literal (.str "a")))
          (eq (path (.member (.position .target))) (literal (.int 0))))
        (eq (path (.member (.name .target))) (literal (.str "td")))) .empty) :=
  (walk_folds_conjuncts false _ .empty).2 _ rfl

end Expr

end ElementQuery
