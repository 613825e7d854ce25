/-
Reading back what was displayed. The tokens of a printable tree have a derivation with the tree
itself, as deep as its text opens levels of nesting, so a tree that stays within the deepest
nesting is parsed back from its text, and no two such trees share a text.
-/
import ElementQuery.Proofs.Expr.Display
import ElementQuery.Proofs.Grammar.Complete

namespace ElementQuery

open Grammar

variable {b : Bindings}

/-! ## Phrases of one and of two conditions -/

namespace Grammar.Derives

variable {parameter : Option String} {c : Connective} {n : Nat} {ts us : List Token} {e l r : Expr}

theorem lone (h : Derives b parameter c.item n ts e) : Derives b parameter (.chain c) n ts e := by
  have := h.chain .finish
  rwa [List.append_nil] at this

theorem join (hl : Derives b parameter c.item n ts l) (hr : Derives b parameter c.item n us r) :
    Derives b parameter (.chain c) n (ts ++ c.token :: us) (c.join l r) := by
  have := hl.chain (hr.link .finish)
  rwa [List.append_nil] at this

/-- Without a lambda header every path of the vocabulary is an operand. -/
theorem operand_of_vocabulary (h : Derives b none .vocabulary n ts e) :
    Derives b none .operand n ts e := by
  have hp : Parser.Parses ⟨b, none, 0⟩ .vocabulary n ts e := Parser.parses_of_derives h
  obtain ⟨head, us, rfl, -⟩ := hp
  exact h.plain (by simp)

theorem disjunction (h : Derives b parameter .unary n ts e) :
    Derives b parameter (.chain .or) n ts e :=
  lone (c := .or) (lone (c := .and) h)

end Grammar.Derives

namespace Expr

/-! ## Levels of nesting -/

/-- The levels of nesting that the text of a tree opens, its own included. -/
def need : Expr → Nat
  | and l r | or l r => 1 + max l.need r.need
  | not e | contains _ e | convert _ e => 1 + e.need
  | eq l r => max l.need r.need
  | literal _ | path _ | captured _ _ | call _ _ | member _ _ => 1

theorem need_pos (e : Expr) : 0 < e.need := by
  induction e with
  | eq l r ihl ihr =>
    rw [need]
    omega
  | _ =>
    unfold need
    omega

/-! ## Derivations of displayed trees -/

/-- A value of the caller is derived together with the fields that are read from it next. -/
theorem derives_fields {e : Expr} (he : Printable b e) : e.IsOwn → ∀ n fields,
    Derives b none .operand n (e.tokens ++ fieldTokens fields) (fields.foldl member e) := by
  induction he with
  | captured hx hfree hv => exact fun _ _ fields => .captured fields hfree hv
  | call hf hfree hword hret => exact fun _ _ fields => .call fields hfree hword hret
  | @member e f hown hf he ih =>
    -- the field joins those read next, since the grammar takes the fields of a value at once
    intro _ n fields
    have := ih hown n (f :: fields)
    rw [tokens, List.append_assoc]
    exact this
  | _ => rintro ⟨⟩

/-- The tree is derived from its tokens as a condition and, if it can be compared, as an operand,
which stands one level further out. -/
structure Derived (b : Bindings) (e : Expr) : Prop where
  unary : ∀ {n}, e.need ≤ n → Derives b none .unary n e.tokens e
  operand : ∀ {n}, e.IsOperand → e.need ≤ n + 1 → Derives b none .operand n e.tokens e

theorem derived_of_operand {e : Expr}
    (h : ∀ {n}, e.need ≤ n + 1 → Derives b none .operand n e.tokens e) : Derived b e := by
  refine ⟨fun {n} hn => ?_, fun _ => h⟩
  have := e.need_pos
  obtain ⟨n, rfl⟩ : ∃ k, n = k + 1 := ⟨n - 1, by omega⟩
  exact .single (h hn)

/-- A printable tree is derived from its tokens. -/
theorem derived_of_printable {e : Expr} (he : Printable b e) : Derived b e := by
  induction he with
  | @and l r hl hr ihl ihr =>
    refine derived_of_operand fun {n} hn => ?_
    rw [need] at hn
    have hjoin := Derives.join (c := .and) (ihl.unary (n := n) (by omega)) (ihr.unary (by omega))
    have := (Derives.lone (c := .or) hjoin).group
    rwa [List.append_assoc, List.cons_append] at this
  | @or l r hl hr ihl ihr =>
    refine derived_of_operand fun {n} hn => ?_
    rw [need] at hn
    have hl := Derives.lone (c := .and) (ihl.unary (n := n) (by omega))
    have hr := Derives.lone (c := .and) (ihr.unary (n := n) (by omega))
    have := (Derives.join (c := .or) hl hr).group
    rwa [List.append_assoc, List.cons_append] at this
  | @not e he ih =>
    refine ⟨fun {n} hn => ?_, fun h => h.elim⟩
    rw [need] at hn
    obtain ⟨n, rfl⟩ : ∃ k, n = k + 1 := ⟨n - 1, by omega⟩
    exact (ih.unary (by omega)).negation
  | @eq l r hol hor hl hr ihl ihr =>
    -- an operand may need the level that its condition opens, so the sides need no further one
    refine ⟨fun {n} hn => ?_, fun h => h.elim⟩
    rw [need] at hn
    have := l.need_pos
    obtain ⟨n, rfl⟩ : ∃ k, n = k + 1 := ⟨n - 1, by omega⟩
    exact (ihl.operand hol (by omega)).comparison (ihr.operand hor (by omega))
  | @contains p e hs hp he ih =>
    refine derived_of_operand fun {n} hn => ?_
    rw [need] at hn
    have harg := (ih.unary (n := n) (by omega)).disjunction
    rcases p with (_ | _ | owner | _ | _) | a
    case member.text => exact harg.textContains.operand_of_vocabulary
    case attributeText => exact (harg.attributeContains (.quoted a.name)).operand_of_vocabulary
    all_goals exact hs.elim
  | truth v => exact derived_of_operand fun _ => .truth v (by simp)
  | integer i => exact derived_of_operand fun _ => .integer i
  | string hs => exact derived_of_operand fun _ => .string _
  | @path p hp =>
    refine derived_of_operand fun _ => ?_
    cases p with
    | member m => exact (Derives.member m).operand_of_vocabulary
    | attributeText a => exact (Derives.attributeText (.quoted a.name)).operand_of_vocabulary
  | captured hx hfree hv =>
    exact derived_of_operand fun _ => derives_fields (.captured hx hfree hv) trivial _ []
  | call hf hfree hword hret =>
    refine derived_of_operand fun _ => ?_
    exact derives_fields (.call hf hfree hword hret) trivial _ []
  | @member e f hown hf he ih =>
    exact derived_of_operand fun _ => derives_fields he hown _ [f]
  | @convert k e he ih =>
    refine derived_of_operand fun {n} hn => ?_
    rw [need] at hn
    exact .conversion (by simp) (ih.unary (n := n) (by omega)).disjunction

/-! ## Parsing a displayed tree -/

theorem parse_of_printable {e : Expr} (he : Printable b e) (hn : e.need ≤ Parser.maxDepth) :
    (parse e.display b).result = .ok e := by
  have hlexes := cuts_displayPlain he [] [] Token.separate_nil
  rw [List.append_nil, List.append_nil] at hlexes
  obtain ⟨lexemes, hscan, htokens⟩ := Token.tokenize_of_lexes hlexes
  have hd : Predicate b e.tokens e := .plain ((derived_of_printable he).unary hn).disjunction
  rw [← htokens] at hd
  rw [display, displayIn_eq_enclose, enclose_nil, parse, Parser.parseChars, hscan]
  exact Parser.parseLexemes_of_predicate hd

/-- A printable tree within the deepest nesting is parsed back from its text, so no other such
tree has the same text. -/
theorem parse_display {e : Expr} (he : Printable b e) (hn : e.need ≤ Parser.maxDepth) :
    (parse e.display b).result = .ok e ∧
      ∀ e', Printable b e' → e'.need ≤ Parser.maxDepth → e'.display = e.display → e' = e := by
  refine ⟨parse_of_printable he hn, fun e' he' hn' htext => ?_⟩
  have h' := parse_of_printable he' hn'
  rw [htext, parse_of_printable he hn] at h'
  injection h' with h'
  exact h'.symm

/-- A negated comparison of a field of a call with a negative integer, and a containment test. -/
theorem parse_display_conjunction :
    Printable ⟨[("n", .string "a")], [("f", fun _ => .int 4)]⟩
        (and (not (eq (member (call "f" (.int 4)) "key") (literal (.int (-1)))))
          (contains (.member (.text .parent)) (captured "n" (.string "a")))) ∧
      (parse "(!f().key == -1 && Parent.Text.Contains(n))"
        ⟨[("n", .string "a")], [("f", fun _ => .int 4)]⟩).result =
        .ok (and (not (eq (member (call "f" (.int 4)) "key") (literal (.int (-1)))))
          (contains (.member (.text .parent)) (captured "n" (.string "a")))) := by
  have hn : Free none "n" := ⟨by simp, by decide, by decide, Head.ofWord?_eq_none_iff.1 (by decide)⟩
  have hf : Free none "f" := ⟨by simp, by decide, by decide, Head.ofWord?_eq_none_iff.1 (by decide)⟩
  have hk : ∀ k : LiteralKind, "f" ≠ k.word := LiteralKind.ofWord?_eq_none_iff.1 (by decide)
  have hcall : Printable ⟨[("n", .string "a")], [("f", fun _ => .int 4)]⟩ (call "f" (.int 4)) :=
    .call (by decide) hf hk ⟨_, rfl, fun _ => rfl⟩
  refine ⟨?printable, Eq.trans (congrArg (fun text => (parse text _).result) ?text)
    (parse_display ?printable (by decide)).1⟩
  case printable =>
    refine .and (.not (.eq trivial trivial (.member trivial (by decide) hcall) (.integer _))) ?_
    exact .contains trivial trivial (.captured (by decide) hn rfl)
  case text => cbv

end Expr

end ElementQuery
