/-
Strict and permissive walks. The two modes differ only on conjuncts that no rule recognises: a
permissive walk goes as a strict one without them, and a strict walk succeeds exactly if there are
none and the permissive walk succeeds. A strict walk that fails stops at the rightmost conjunct
that is malformed or that no rule recognises, and a walk fails for no other reason.

What reading a conjunct can fail with is followed through the stages of reading: each of them fails
with a malformed operand or not at all.
-/
import ElementQuery.Proofs.Condition.Answer
import ElementQuery.Proofs.Walk.Fold
import ElementQuery.Query.XPath

namespace ElementQuery

/-! ## Malformed operands -/

/-- A result that is an error only for a malformed operand. -/
def FailsMalformed {α : Type} (x : Except Error α) : Prop :=
  ∀ e, x = .error e → ∃ role text, e = .malformed role text

namespace FailsMalformed

variable {α β : Type}

theorem ok (a : α) : FailsMalformed (.ok a) := by
  intro e h
  cases h

theorem malformed (role : Role) (text : String) :
    FailsMalformed (.error (.malformed role text) : Except Error α) := by
  rintro e h
  cases h
  exact ⟨role, text, rfl⟩

theorem bind {x : Except Error α} {f : α → Except Error β} (hx : FailsMalformed x)
    (hf : ∀ a, FailsMalformed (f a)) : FailsMalformed (x >>= f) := by
  intro e h
  cases x with
  | error e' =>
    cases h
    exact hx e rfl
  | ok a => exact hf a e h

theorem map {x : Except Error α} (hx : FailsMalformed x) (f : α → β) :
    FailsMalformed (x.map f) := by
  intro e h
  cases x with
  | error e' =>
    cases h
    exact hx e rfl
  | ok a => cases h

end FailsMalformed

namespace Literal

theorem failsMalformed_convert (kind : LiteralKind) (l : Literal) :
    FailsMalformed (l.convert kind) := by
  unfold convert
  split
  · exact .ok l
  · split
    · exact .ok _
    · split
      · exact .ok _
      · exact .malformed _ _
    · split
      · exact .ok _
      · exact .malformed _ _
    · exact .malformed _ _
    · exact .malformed _ _

theorem failsMalformed_elementName (l : Literal) : FailsMalformed l.elementName := by
  unfold elementName
  dsimp only
  split
  · exact .malformed _ _
  · exact .ok _

theorem failsMalformed_position (l : Literal) : FailsMalformed l.position := by
  unfold position
  split
  · exact .ok _
  · exact .malformed _ _

theorem failsMalformed_attributeTest (l : Literal) (kind : MatchKind) (owner : Owner)
    (name : String) : FailsMalformed (l.attributeTest kind owner name) := by
  unfold attributeTest attributeNameOf
  dsimp only
  refine .bind ?_ fun n => .ok _
  split
  · exact .malformed _ _
  · exact .ok _

end Literal

namespace Expr

theorem failsMalformed_evaluate (e : Expr) : FailsMalformed e.evaluate := by
  induction e with
  | member e field ih => exact ih.bind fun v => .ok _
  | convert kind e ih =>
    refine ih.bind fun v => ?_
    split
    · exact (Literal.failsMalformed_convert kind _).bind fun l => .ok _
    · exact .ok _
  | _ => exact .ok _

theorem failsMalformed_resolve (e : Expr) : FailsMalformed e.resolve := by
  induction e with
  | contains p e ih =>
    refine ih.bind fun a => ?_
    split
    · exact .ok _
    · exact .ok _
  | member e field _ => exact (failsMalformed_evaluate (.member e field)).bind fun v => .ok _
  | convert kind e ih =>
    refine ih.bind fun a => ?_
    split
    · exact (Literal.failsMalformed_convert kind _).bind fun l => .ok _
    · exact .ok _
  | eq l r ihl ihr =>
    refine ihl.bind fun a => ihr.bind fun b => ?_
    split
    · exact .ok _
    · exact .ok _
  | _ => exact .ok _

end Expr

theorem Leaf.failsMalformed_answer {leaf : Leaf} {answer : Except Error Condition}
    (h : leaf.answer? = some answer) : FailsMalformed answer := by
  unfold answer? at h
  -- a `cases h` would compute the readers of literals to compare the answers
  split at h
  · rw [← Option.some.inj h]
    exact (Literal.failsMalformed_elementName _).map _
  · rw [← Option.some.inj h]
    exact (Literal.failsMalformed_position _).map _
  · rw [← Option.some.inj h]
    exact .ok _
  · rw [← Option.some.inj h]
    exact (Literal.failsMalformed_elementName _).map _
  · rw [← Option.some.inj h]
    exact (Literal.failsMalformed_elementName _).map _
  · rw [← Option.some.inj h]
    exact Literal.failsMalformed_attributeTest _ _ _ _
  · rw [← Option.some.inj h]
    exact Literal.failsMalformed_attributeTest _ _ _ _
  · rw [← Option.some.inj h]
    exact .ok _
  · cases h

theorem Leaf.failsMalformed_classify (leaf : Leaf) : FailsMalformed leaf.classify := by
  rw [classify_eq]
  split
  · rename_i answer h
    exact (failsMalformed_answer h).map _
  · exact .ok _

namespace Expr

theorem failsMalformed_classify (c : Expr) : FailsMalformed c.classify := by
  unfold classify
  refine (failsMalformed_resolve c).bind fun a => ?_
  split
  · exact Leaf.failsMalformed_classify _
  · exact .ok _

/-! ## Conjuncts -/

/-- Whether nothing is wrong with a conjunct and yet it expresses no condition. -/
def unrecognised (c : Expr) : Bool :=
  match c.classify with
  | .ok none => true
  | _ => false

theorem unrecognised_iff {c : Expr} : c.unrecognised = true ↔ c.classify = .ok none := by
  unfold unrecognised
  split
  · rename_i h
    simp [h]
  · rename_i h
    simpa using h

/-- A conjunct expresses a condition, is malformed or is not recognised. -/
theorem classify_cases (c : Expr) :
    (∃ found, c.classify = .ok (some found)) ∨
    (∃ role text, c.classify = .error (.malformed role text)) ∨ c.unrecognised = true := by
  cases h : c.classify with
  | error e =>
    obtain ⟨role, text, rfl⟩ := failsMalformed_classify c e h
    exact .inr (.inl ⟨role, text, rfl⟩)
  | ok found =>
    cases found with
    | some found => exact .inl ⟨found, rfl⟩
    | none => exact .inr (.inr (unrecognised_iff.2 h))

/-! ## Rows of conjuncts -/

/-- A permissive row of visits goes as a strict one without the conjuncts that no rule
recognises. -/
theorem visitAll_permissive (cs : List Expr) (q : Query) :
    (visitAll false cs q).query = (visitAll true (cs.filter (!·.unrecognised)) q).query ∧
    (visitAll false cs q).result = (visitAll true (cs.filter (!·.unrecognised)) q).result := by
  induction cs generalizing q with
  | nil => exact ⟨rfl, rfl⟩
  | cons c cs ih =>
    cases hc : c.classify with
    | error e =>
      have hu : c.unrecognised = false := by simp [unrecognised, hc]
      rw [List.filter_cons_of_pos (by simp [hu])]
      simp [visitAll, visit_of_error hc]
    | ok found =>
      cases found with
      | some found =>
        have hu : c.unrecognised = false := by simp [unrecognised, hc]
        rw [List.filter_cons_of_pos (by simp [hu])]
        simp only [visitAll, visit_of_some hc]
        exact ih _
      | none =>
        rw [List.filter_cons_of_neg (by simp [unrecognised, hc])]
        simp only [visitAll, visit_of_none hc]
        exact ih _

/-- Where every conjunct is recognised or malformed, the two modes do the same. -/
theorem visitAll_strict_eq {cs : List Expr} (h : ∀ c ∈ cs, c.unrecognised = false) (q : Query) :
    visitAll true cs q = visitAll false cs q := by
  induction cs generalizing q with
  | nil => rfl
  | cons c cs ih =>
    rw [List.forall_mem_cons] at h
    cases hc : c.classify with
    | error e => simp only [visitAll, visit_of_error hc]
    | ok found =>
      cases found with
      | some found => simp only [visitAll, visit_of_some hc, ih h.2]
      | none => rw [unrecognised_iff.2 hc] at h; cases h.1

/-- A visit that succeeds strictly has found a condition. -/
theorem classify_of_visit_strict {c : Expr} {found : Option Classified}
    (h : c.visit true = .ok found) : ∃ f, c.classify = .ok (some f) := by
  rcases c.classify_cases with hc | ⟨role, text, hc⟩ | hc
  · exact hc
  · rw [visit_of_error hc] at h
    cases h
  · rw [visit_of_none (unrecognised_iff.1 hc)] at h
    cases h

/-- The first visit that fails gives the result. -/
theorem result_visitAll_append {strict : Bool} {before : List Expr} {c : Expr} {err : Error}
    (hb : ∀ c ∈ before, ∃ found, c.visit strict = .ok found) (hc : c.visit strict = .error err)
    (rest : List Expr) (q : Query) :
    (visitAll strict (before ++ c :: rest) q).result = .error err := by
  induction before generalizing q with
  | nil => simp [visitAll, hc]
  | cons c' before ih =>
    rw [List.forall_mem_cons] at hb
    obtain ⟨⟨found, hf⟩, hb⟩ := hb
    rw [List.cons_append, visitAll, hf]
    exact ih hb _

/-- A visit fails on a malformed conjunct, and strictly on one that no rule recognises. -/
theorem visit_error {strict : Bool} {c : Expr} {err : Error} (h : c.visit strict = .error err) :
    (∃ role text, err = .malformed role text ∧ c.classify = .error err) ∨
    strict = true ∧ c.unrecognised = true ∧ err = .unsupported c.display := by
  rcases c.classify_cases with ⟨found, hc⟩ | ⟨role, text, hc⟩ | hc
  · rw [visit_of_some hc] at h
    cases h
  · rw [visit_of_error hc] at h
    cases h
    exact .inl ⟨role, text, rfl, hc⟩
  · rw [visit_of_none (unrecognised_iff.1 hc)] at h
    cases strict with
    | false => cases h
    | true =>
      cases h
      exact .inr ⟨rfl, hc, rfl⟩

/-! ## Walks -/

variable {e : Expr} {q : Query}

/-- A walk that fails stops at a conjunct whose visit fails, and those to its right succeed. -/
theorem walk_error {strict : Bool} {err : Error} (h : (e.walk strict q).result = .error err) :
    ∃ left c right, e.conjuncts = left ++ c :: right ∧
      (∀ c' ∈ right, ∃ found, c'.visit strict = .ok found) ∧ c.visit strict = .error err := by
  rw [walk_eq_visitAll] at h
  obtain ⟨visits, hvisits, ⟨-, hw⟩ | ⟨c, rest, err', hcs, herr, hw⟩⟩ :=
    visitAll_cases strict e.conjuncts.reverse q
  · rw [hw] at h
    cases h
  · rw [hw] at h
    cases h
    refine ⟨rest.reverse, c, (visits.map Visit.conjunct).reverse, ?_, ?_, herr⟩
    · rw [← List.reverse_reverse e.conjuncts, hcs]
      simp
    · intro c' hc'
      obtain ⟨v, hv, rfl⟩ := List.mem_map.1 (List.mem_reverse.1 hc')
      exact ⟨v.found, hvisits v hv⟩

theorem result_walk_of_error {strict : Bool} {err : Error} {left right : List Expr} {c : Expr}
    (hcs : e.conjuncts = left ++ c :: right)
    (hright : ∀ c' ∈ right, ∃ found, c'.visit strict = .ok found)
    (hc : c.visit strict = .error err) : (e.walk strict q).result = .error err := by
  rw [walk_eq_visitAll, hcs, List.reverse_append, List.reverse_cons, List.append_assoc]
  refine result_visitAll_append (fun c' hc' => ?_) hc _ q
  exact hright c' (List.mem_reverse.1 hc')

theorem walk_strict_eq (h : ∀ c ∈ e.conjuncts, c.unrecognised = false) :
    e.walk true q = e.walk false q := by
  rw [walk_eq_visitAll, walk_eq_visitAll]
  exact visitAll_strict_eq (fun c hc => h c (List.mem_reverse.1 hc)) q

/-- A strict walk that succeeds has recognised every conjunct. -/
theorem unrecognised_of_walk_strict (h : (e.walk true q).result = .ok ()) :
    ∀ c ∈ e.conjuncts, c.unrecognised = false := by
  intro c hc
  obtain ⟨found, hv⟩ := result_walk_eq_ok_iff.1 h c hc
  obtain ⟨f, hf⟩ := classify_of_visit_strict hv
  simp [unrecognised, hf]

/-- A permissive walk goes as a strict walk of the conjunction without the conjuncts that no rule
recognises; if none is left, nothing is written. -/
theorem walk_permissive (e : Expr) (q : Query) :
    match all (e.conjuncts.filter (!·.unrecognised)) with
    | some e' => (e.walk false q).query = (e'.walk true q).query ∧
        (e.walk false q).result = (e'.walk true q).result
    | none => (e.walk false q).query = q ∧ (e.walk false q).result = .ok () := by
  have hp := visitAll_permissive e.conjuncts.reverse q
  rw [List.filter_reverse] at hp
  rw [walk_eq_visitAll]
  split
  · rename_i e' he'
    -- a conjunct of `e` is its own only conjunct, so those of `e'` are the ones that are left
    have hcs : e'.conjuncts = e.conjuncts.filter (!·.unrecognised) := by
      have hmap : (e.conjuncts.filter (!·.unrecognised)).map conjuncts =
          (e.conjuncts.filter (!·.unrecognised)).map fun c => [c] :=
        List.map_congr_left fun c hc => conjuncts_of_mem (List.mem_filter.1 hc).1
      rw [conjuncts_all he', List.flatMap_def, hmap, ← List.flatMap_def]
      exact List.flatMap_singleton' _
    rw [walk_eq_visitAll, hcs]
    exact hp
  · rename_i hnone
    have hnil : e.conjuncts.filter (!·.unrecognised) = [] := by
      cases hl : e.conjuncts.filter (!·.unrecognised) with
      | nil => rfl
      | cons c cs => rw [hl] at hnone; cases hnone
    rw [hnil] at hp
    exact hp

/-- Strict and permissive walks differ only on conjuncts that no rule recognises. A permissive walk
goes as a strict one without them and never reports one. A strict walk succeeds exactly if the
permissive one does and there are none, with the same query and location path. A strict walk that
fails reports the rightmost conjunct that is malformed, as the permissive walk does, or that no rule
recognises, by its text. No walk fails with an error of the parser or of a JSON reader. -/
theorem walk_strict_and_permissive (e : Expr) (q : Query) :
    ((match all (e.conjuncts.filter (!·.unrecognised)) with
        | some e' => (e.walk false q).query = (e'.walk true q).query ∧
            (e.walk false q).result = (e'.walk true q).result
        | none => (e.walk false q).query = q ∧ (e.walk false q).result = .ok ()) ∧
      ∀ text, (e.walk false q).result ≠ .error (.unsupported text)) ∧
    (((e.walk true q).result = .ok () ↔
        (e.walk false q).result = .ok () ∧ ∀ c ∈ e.conjuncts, c.unrecognised = false) ∧
      ((e.walk true q).result = .ok () →
        (e.walk true q).query = (e.walk false q).query ∧
        (e.walk true q).query.xpath = (e.walk false q).query.xpath)) ∧
    (∀ err, (e.walk true q).result = .error err →
      ∃ left c right, e.conjuncts = left ++ c :: right ∧
        (∀ c' ∈ right, ∃ found, c'.classify = .ok (some found)) ∧
        ((∃ role text, err = .malformed role text ∧ c.classify = .error err ∧
            (e.walk false q).result = .error err) ∨
          c.unrecognised = true ∧ err = .unsupported c.display)) ∧
    ∀ strict err, (e.walk strict q).result = .error err →
      (∀ fault position, err ≠ .parse fault position) ∧ (∀ name, err ≠ .unbound name) ∧
      err ≠ .json := by
  refine ⟨⟨walk_permissive e q, ?_⟩, ⟨?_, ?_⟩, ?_, ?_⟩
  · intro text h
    obtain ⟨left, c, right, -, -, hc⟩ := walk_error h
    rcases visit_error hc with ⟨role, t, he, -⟩ | ⟨hs, -, -⟩
    · cases he
    · cases hs
  · constructor
    · intro h
      have hu := unrecognised_of_walk_strict h
      rw [walk_strict_eq hu] at h
      exact ⟨h, hu⟩
    · rintro ⟨h, hu⟩
      rw [walk_strict_eq hu]
      exact h
  · intro h
    rw [walk_strict_eq (unrecognised_of_walk_strict h)]
    exact ⟨rfl, rfl⟩
  · intro err h
    obtain ⟨left, c, right, hcs, hright, hc⟩ := walk_error h
    have hfound : ∀ c' ∈ right, ∃ found, c'.classify = .ok (some found) := by
      intro c' hc'
      obtain ⟨found, hf⟩ := hright c' hc'
      exact classify_of_visit_strict hf
    refine ⟨left, c, right, hcs, hfound, ?_⟩
    rcases visit_error hc with ⟨role, text, he, hm⟩ | ⟨-, hu, he⟩
    · refine .inl ⟨role, text, he, hm, ?_⟩
      -- what is to the right of `c` is recognised, so the permissive walk gets to `c` too
      refine result_walk_of_error hcs (fun c' hc' => ?_) (visit_of_error hm)
      obtain ⟨found, hf⟩ := hfound c' hc'
      exact ⟨some found, visit_of_some hf⟩
    · exact .inr ⟨hu, he⟩
  · intro strict err h
    obtain ⟨left, c, right, -, -, hc⟩ := walk_error h
    rcases visit_error hc with ⟨role, text, rfl, -⟩ | ⟨-, -, rfl⟩
    · refine ⟨?_, ?_, ?_⟩ <;> intros <;> nofun
    · refine ⟨?_, ?_, ?_⟩ <;> intros <;> nofun

/-- A malformed position to the left of a disjunction, which no rule recognises: the strict walk
stops at the disjunction. -/
theorem walk_strict_and_permissive_masked :
    ∃ e : Expr, e = and (and (eq (path (.member (.position .target))) (literal (.int 0)))
        (or (literal (.str "a")) (literal (.str "b"))))
        (eq (path (.member (.name .target))) (literal (.str "td"))) ∧
      (e.walk true .empty).result = .error (.unsupported "(\"a\" || \"b\")") ∧
      ∃ c ∈ e.conjuncts, c.unrecognised = true ∧
        Error.unsupported "(\"a\" || \"b\")" = .unsupported c.display := by
  refine ⟨_, rfl, ?_⟩
  have hrun : (walk true (and (and (eq (path (.member (.position .target))) (literal (.int 0)))
      (or (literal (.str "a")) (literal (.str "b"))))
      (eq (path (.member (.name .target))) (literal (.str "td")))) .empty).result =
      .error (.unsupported "(\"a\" || \"b\")") := by
    rw [walk_eq_visitAll]
    rfl
  obtain ⟨left, c, right, hcs, -, ⟨_, _, h, -⟩ | ⟨hu, he⟩⟩ :=
    (walk_strict_and_permissive _ .empty).2.2.1 _ hrun
  · cases h
  · exact ⟨hrun, c, by rw [hcs]; simp, hu, he⟩

end Expr

end ElementQuery
