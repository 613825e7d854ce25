/-
Comparisons are symmetric. A comparison and the same with its sides swapped write the same into a
query or both fail, and then with the same error, unless neither side can be resolved: each of the
two then reports the side that it resolves first. So in a predicate that has a query the sides of
any of its comparisons can be swapped without a change to the query or the location path.

Both sides are resolved even where the first comes to nothing, so an error on one side is met in
either order. Which side is the path is not looked at before both are resolved.
-/
import ElementQuery.Expr.XPath
import ElementQuery.Proofs.Walk.Alike

namespace ElementQuery

/-! ## Two walks -/

namespace Walk

/-- Two walks from one query that succeed and leave the same query, or that both fail, leave the
query as it was and end with related errors. -/
inductive Paired (q : Query) (R : Error → Error → Prop) (w w' : Walk) : Prop
  | ok (h : w.result = .ok ()) (h' : w'.result = .ok ()) (hq : w.query = w'.query)
  | failed {err err' : Error} (h : w.result = .error err) (h' : w'.result = .error err')
      (hq : w.query = q) (hq' : w'.query = q) (hR : R err err')

theorem result_of_built {w : Walk} {q : Query} (h : w.built = .ok q) :
    w.result = .ok () ∧ w.query = q := by
  unfold built at h
  cases hw : w.result with
  | ok u =>
    rw [hw] at h
    exact ⟨rfl, Except.ok.inj h⟩
  | error err =>
    rw [hw] at h
    cases h

/-- A walk that goes like one that built a query builds this query. -/
theorem Alike.built {w w' : Walk} (h : w.Alike w') {q : Query} (hq : w.built = .ok q) :
    w'.built = .ok q := by
  obtain ⟨hok, rfl⟩ := result_of_built hq
  have hresult := h.result
  rw [hok] at hresult
  rw [Walk.built, h.query]
  cases hw : w'.result with
  | ok u => rfl
  | error err =>
    rw [hw] at hresult
    cases hresult

end Walk

/-! ## One comparison -/

/-- A comparison is a condition on a path whichever side the path is on. -/
theorem Leaf.ofOperand?_comparison_comm (a b : Operand) :
    ofOperand? (.comparison a b) = ofOperand? (.comparison b a) := by
  cases a <;> cases b <;> rfl

namespace Expr

section Comparison

variable {l r : Expr}

theorem classify_eq_of_error_left {err : Error} (h : l.resolve = .error err) (r : Expr) :
    (eq l r).classify = .error err := by
  rw [classify, resolve, h]
  rfl

theorem classify_eq_of_error_right {a : Option Operand} {err : Error} (hl : l.resolve = .ok a)
    (hr : r.resolve = .error err) : (eq l r).classify = .error err := by
  rw [classify, resolve, hl, hr]
  rfl

theorem classify_eq_comm_of_ok {a b : Option Operand} (hl : l.resolve = .ok a)
    (hr : r.resolve = .ok b) : (eq l r).classify = (eq r l).classify := by
  rw [classify, classify, resolve, resolve, hl, hr]
  cases a with
  | none => cases b <;> rfl
  | some a =>
    cases b with
    | none => rfl
    | some b =>
      dsimp only [bind, Except.bind, pure, Except.pure, Option.bind_some]
      rw [Leaf.ofOperand?_comparison_comm]

/-- A comparison expresses the same in either order if one of its sides can be resolved. -/
theorem classify_eq_comm (h : (∃ a, l.resolve = .ok a) ∨ ∃ b, r.resolve = .ok b) :
    (eq l r).classify = (eq r l).classify := by
  cases hl : l.resolve with
  | ok a =>
    cases hr : r.resolve with
    | ok b => exact classify_eq_comm_of_ok hl hr
    | error err => rw [classify_eq_of_error_right hl hr, classify_eq_of_error_left hr]
  | error err =>
    obtain ⟨a, ha⟩ | ⟨b, hb⟩ := h
    · rw [hl] at ha
      cases ha
    · rw [classify_eq_of_error_left hl, classify_eq_of_error_right hb hl]

end Comparison

/-! ## The walk of one comparison -/

/-- How a comparison and its swapped form fail: each with the error of its own first side if
neither side can be resolved; else with the same error, or, if the walk is strict, for want of a
rule and then each by its own text. -/
def SwappedErrors (strict : Bool) (l r : Expr) (err err' : Error) : Prop :=
  (l.resolve = .error err ∧ r.resolve = .error err') ∨
  ((∃ a, l.resolve = .ok a) ∨ ∃ b, r.resolve = .ok b) ∧
    (err = err' ∨
      strict = true ∧ err = .unsupported (eq l r).display ∧ err' = .unsupported (eq r l).display)

section Comparison

variable {strict : Bool} {l r : Expr}

theorem walk_eq_of_visit_ok {found : Option Classified} (h : (eq l r).visit strict = .ok found)
    (q : Query) :
    (walk strict (eq l r) q).query = q.write found ∧ (walk strict (eq l r) q).result = .ok () := by
  rw [walk_of_visit_ok (by simp) h]
  exact ⟨rfl, rfl⟩

theorem walk_eq_of_visit_error {err : Error} (h : (eq l r).visit strict = .error err) (q : Query) :
    (walk strict (eq l r) q).query = q ∧ (walk strict (eq l r) q).result = .error err := by
  rw [walk_of_visit_error (by simp) h]
  exact ⟨rfl, rfl⟩

theorem paired_of_visit_ok {found : Option Classified}
    (h : (eq l r).visit strict = .ok found) (h' : (eq r l).visit strict = .ok found) (q : Query)
    (R : Error → Error → Prop) :
    Walk.Paired q R (walk strict (eq l r) q) (walk strict (eq r l) q) := by
  obtain ⟨hq, hw⟩ := walk_eq_of_visit_ok h q
  obtain ⟨hq', hw'⟩ := walk_eq_of_visit_ok h' q
  exact .ok hw hw' (hq.trans hq'.symm)

theorem paired_of_visit_error {err err' : Error} {R : Error → Error → Prop}
    (h : (eq l r).visit strict = .error err) (h' : (eq r l).visit strict = .error err')
    (hR : R err err') (q : Query) :
    Walk.Paired q R (walk strict (eq l r) q) (walk strict (eq r l) q) := by
  obtain ⟨hq, hw⟩ := walk_eq_of_visit_error h q
  obtain ⟨hq', hw'⟩ := walk_eq_of_visit_error h' q
  exact .failed hw hw' hq hq' hR

/-- A comparison is walked in either order alike. -/
theorem paired_walk_eq (strict : Bool) (l r : Expr) (q : Query) :
    Walk.Paired q (SwappedErrors strict l r) (walk strict (eq l r) q) (walk strict (eq r l) q) := by
  by_cases hsides : (∃ a, l.resolve = .ok a) ∨ ∃ b, r.resolve = .ok b
  · have hcomm := classify_eq_comm hsides
    cases hc : (eq l r).classify with
    | error err =>
      rw [hc] at hcomm
      have hsame : SwappedErrors strict l r err err := .inr ⟨hsides, .inl rfl⟩
      exact paired_of_visit_error (visit_of_error hc) (visit_of_error hcomm.symm) hsame q
    | ok found =>
      rw [hc] at hcomm
      cases found with
      | some found =>
        exact paired_of_visit_ok (visit_of_some hc) (visit_of_some hcomm.symm) q _
      | none =>
        have hnone := @visit_of_none strict _ hc
        have hnone' := @visit_of_none strict _ hcomm.symm
        cases strict with
        | false => exact paired_of_visit_ok hnone hnone' q _
        | true => exact paired_of_visit_error hnone hnone' (.inr ⟨hsides, .inr ⟨rfl, rfl, rfl⟩⟩) q
  · rw [not_or, not_exists, not_exists] at hsides
    cases hl : l.resolve with
    | ok a => exact absurd hl (hsides.1 a)
    | error err =>
      cases hr : r.resolve with
      | ok b => exact absurd hr (hsides.2 b)
      | error err' =>
        exact paired_of_visit_error (visit_of_error (classify_eq_of_error_left hl r))
          (visit_of_error (classify_eq_of_error_left hr l)) (.inl ⟨hl, hr⟩) q

end Comparison

/-! ## Predicates -/

/-- The second tree is the first with the sides of some of the comparisons among its conjuncts
swapped. -/
inductive Swapped : Expr → Expr → Prop
  | same (e : Expr) : Swapped e e
  | eq (l r : Expr) : Swapped (.eq l r) (.eq r l)
  | and {l r l' r' : Expr} : Swapped l l' → Swapped r r' → Swapped (.and l r) (.and l' r')

theorem classify_of_visit_ok {strict : Bool} {c : Expr} {found : Option Classified}
    (h : c.visit strict = .ok found) : ∃ found, c.classify = .ok found := by
  cases hc : c.classify with
  | ok found => exact ⟨found, rfl⟩
  | error err =>
    rw [visit_of_error hc] at h
    cases h

/-- Conjuncts that express something, or nothing, without an error express it with their sides
swapped too. -/
theorem Swapped.map_classify {e e' : Expr} (h : Swapped e e')
    (hok : ∀ c ∈ e.conjuncts, ∃ found, c.classify = .ok found) :
    e.conjuncts.map classify = e'.conjuncts.map classify := by
  induction h with
  | same e => rfl
  | eq l r =>
    obtain ⟨found, hfound⟩ := hok (.eq l r) (List.mem_singleton_self _)
    have hside : ∃ a, l.resolve = .ok a := by
      cases hl : l.resolve with
      | ok a => exact ⟨a, rfl⟩
      | error err =>
        rw [classify_eq_of_error_left hl] at hfound
        cases hfound
    exact congrArg ([·]) (classify_eq_comm (.inl hside))
  | and _ _ ihl ihr =>
    rw [conjuncts] at hok
    rw [conjuncts, conjuncts, List.map_append, List.map_append,
      ihl fun c hc => hok c (List.mem_append_left _ hc),
      ihr fun c hc => hok c (List.mem_append_right _ hc)]

theorem Swapped.built {e e' : Expr} (h : Swapped e e') {strict : Bool} {q m : Query}
    (hm : (e.walk strict q).built = .ok m) : (e'.walk strict q).built = .ok m := by
  have hwalk := result_walk_eq_ok_iff.1 (Walk.result_of_built hm).1
  refine (walk_alike strict (h.map_classify fun c hc => ?_) q).built hm
  obtain ⟨found, hv⟩ := hwalk c hc
  exact classify_of_visit_ok hv

/-- Comparisons are symmetric: with its sides swapped, a comparison writes the same into a query or
fails as well, with the same error unless neither side can be resolved. So the sides of any of the
comparisons that a predicate joins can be swapped without a change to the query or the location path
that the predicate has. -/
theorem walk_swapped :
    (∀ (strict : Bool) (l r : Expr) (q : Query),
      Walk.Paired q (SwappedErrors strict l r) (walk strict (eq l r) q) (walk strict (eq r l) q)) ∧
    ∀ e e' : Expr, Swapped e e' → ∀ strict : Bool,
      (∀ q m : Query, (e.walk strict q).built = .ok m → (e'.walk strict q).built = .ok m) ∧
      ∀ path, e.xpath strict = .ok path → e'.xpath strict = .ok path := by
  refine ⟨paired_walk_eq, fun e e' h strict => ⟨fun q m hm => h.built hm, fun path hpath => ?_⟩⟩
  unfold xpath query at hpath ⊢
  cases hm : (e.walk strict .empty).built with
  | ok m =>
    rw [hm] at hpath
    rw [h.built hm]
    exact hpath
  | error err =>
    rw [hm] at hpath
    cases hpath

/-- A comparison written with its value first, beside one that is left as it is. -/
theorem walk_swapped_value_first :
    (and (eq (literal (.str "td")) (path (.member (.name .target))))
      (eq (path (.member (.position .target))) (literal (.int 5)))).xpath true =
        .ok "//td[position()=5]" := by
  have hplain : (and (eq (path (.member (.name .target))) (literal (.str "td")))
      (eq (path (.member (.position .target))) (literal (.int 5)))).xpath true =
        .ok "//td[position()=5]" := by
    unfold xpath query
    rw [walk_eq_visitAll]
    rfl
  exact (walk_swapped.2 _ _ (.and (.eq _ _) (.same _)) true).2 _ hplain

end Expr

end ElementQuery
