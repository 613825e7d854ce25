/-
Kinds do not matter. Erasing the kinds of a tree makes a text of every literal and of every scalar
of the caller; the tree that is left is walked like the tree before. So a number and the text of
that number can stand for one another, below conversions too.
-/
import ElementQuery.Proofs.Literal.Text
import ElementQuery.Proofs.Walk.Alike

namespace ElementQuery

/-- A scalar as its text; any other value stays as it is. -/
def Json.Value.erase (v : Json.Value) : Json.Value :=
  match Literal.ofJson? v with
  | some l => .string l.text
  | none => v

/-- A tree whose literals and scalars of the caller are all texts. -/
def Expr.erase : Expr → Expr
  | and l r => and l.erase r.erase
  | or l r => or l.erase r.erase
  | not e => not e.erase
  | eq l r => eq l.erase r.erase
  | contains p e => contains p e.erase
  | literal l => literal (.str l.text)
  | path p => path p
  | captured x v => captured x v.erase
  | call f v => call f v.erase
  | member e field => member e.erase field
  | convert kind e => convert kind e.erase

/-- A value and its erasure stand for literals with the same text. -/
theorem Json.Value.erase_alike (v : Json.Value) : v.erase.Alike Literal.SameText v := by
  cases h : Literal.ofJson? v with
  | none =>
    have hv : v.erase = v := by
      unfold erase
      rw [h]
    rw [hv]
    exact .refl Literal.respected_sameText v
  | some l =>
    have hv : v.erase = .string l.text := by
      unfold erase
      rw [h]
    rw [hv]
    constructor
    · rw [h]
      exact .some rfl
    · intro field
      cases v with
      | object fields => cases h
      | _ => rfl

namespace Expr

theorem erase_alike (e : Expr) : e.erase.Alike Literal.SameText e := by
  induction e with
  | and l r ihl ihr => exact .and ihl ihr
  | or l r ihl ihr => exact .or ihl ihr
  | not e ih => exact .not ih
  | eq l r ihl ihr => exact .eq ihl ihr
  | contains p e ih => exact .contains p ih
  | literal l => exact .value rfl rfl (.toJson rfl)
  | path p => exact .path p
  | captured x v => exact .value rfl rfl v.erase_alike
  | call f v => exact .value rfl rfl v.erase_alike
  | member e field ih => exact .member field ih
  | convert kind e ih => exact .convert kind ih

/-- Alike trees whose literals have the same texts are walked alike. -/
theorem Alike.walk {e e' : Expr} (h : e.Alike Literal.SameText e') (strict : Bool) (q : Query) :
    (e.walk strict q).Alike (e'.walk strict q) :=
  walk_alike strict (h.map_conjuncts fun _ _ h => h.classify) q

end Expr

end ElementQuery
