/-
Walks that go alike: they write the same, find the same conditions in their visits and end alike,
where the text of a condition that no rule recognises is not compared. A walk depends on its
conjuncts only through what each of them expresses, so trees whose conjuncts express the same one
by one are walked alike.
-/
import ElementQuery.Proofs.Walk.Fold

namespace ElementQuery

/-- An error without the text of a condition that no rule recognises. -/
def Error.untold : Error → Error
  | unsupported _ => unsupported ""
  | e => e

/-- Two walks that differ at most in the conjuncts that they show. -/
structure Walk.Alike (w w' : Walk) : Prop where
  query : w.query = w'.query
  found : w.visits.map Visit.found = w'.visits.map Visit.found
  result : w.result.mapError Error.untold = w'.result.mapError Error.untold

theorem Walk.Alike.after {w w' : Walk} (h : w.Alike w') (c c' : Expr) (found : Option Classified) :
    (w.after ⟨c, found⟩).Alike (w'.after ⟨c', found⟩) where
  query := h.query
  found := by simp only [Walk.after, List.map_cons, h.found]
  result := h.result

namespace Expr

/-- One conjunct after another is visited alike if they express the same. -/
theorem visitAll_alike (strict : Bool) {cs cs' : List Expr}
    (h : cs.map classify = cs'.map classify) (q : Query) :
    (visitAll strict cs q).Alike (visitAll strict cs' q) := by
  induction cs generalizing cs' q with
  | nil =>
    obtain rfl : cs' = [] := List.map_eq_nil_iff.1 h.symm
    exact ⟨rfl, rfl, rfl⟩
  | cons c cs ih =>
    obtain ⟨c', cs', rfl, hc, hcs⟩ := List.map_eq_cons_iff.1 h.symm
    have ih := ih hcs.symm
    cases hv : c.classify with
    | error e =>
      rw [hv] at hc
      simp only [visitAll, visit_of_error hv, visit_of_error hc]
      exact ⟨rfl, rfl, rfl⟩
    | ok found =>
      rw [hv] at hc
      cases found with
      | some found =>
        simp only [visitAll, visit_of_some hv, visit_of_some hc]
        exact (ih _).after c c' _
      | none =>
        simp only [visitAll, visit_of_none hv, visit_of_none hc]
        cases strict with
        | true => exact ⟨rfl, rfl, rfl⟩
        | false => exact (ih _).after c c' _

/-- Trees whose conjuncts express the same one by one are walked alike. -/
theorem walk_alike (strict : Bool) {e e' : Expr}
    (h : e.conjuncts.map classify = e'.conjuncts.map classify) (q : Query) :
    (e.walk strict q).Alike (e'.walk strict q) := by
  rw [walk_eq_visitAll, walk_eq_visitAll]
  refine visitAll_alike strict ?_ q
  rw [List.map_reverse, List.map_reverse, h]

end Expr

end ElementQuery
