/-
The calls that parsing makes. A function of the caller is called where its name stands with an
empty pair of parentheses, once for each such place and from left to right; what the calls return
is kept in the call nodes of the tree, in the same order. A parse that fails has made some first
calls of that row and no other, and a text that cannot be cut into lexemes makes none.

A parser is followed by the lexemes left: the calls that it makes are the names applied in the part
that it takes. A part can end just before an opening parenthesis, which would make its last name an
applied one; no parser goes on from there, so nothing is called after such a name was passed over.
-/
import ElementQuery.Proofs.Grammar.Complete

namespace ElementQuery

/-! ## Calls in trees and in texts -/

/-- The calls in a tree with their results, from left to right. -/
def Expr.callNodes : Expr → List (String × Json.Value)
  | and l r | or l r | eq l r => l.callNodes ++ r.callNodes
  | not e | contains _ e | member e _ | convert _ e => e.callNodes
  | call f v => [(f, v)]
  | literal _ | path _ | captured _ _ => []

/-- Whether a name is that of a function of the caller and no word of the language itself. -/
def Bindings.callable (b : Bindings) (name : String) : Bool :=
  (b.function? name).isSome && name != "true" && name != "false" &&
    (Head.ofWord? name).isNone && (LiteralKind.ofWord? name).isNone

namespace Token

/-- The names with an empty pair of parentheses after them, from left to right. -/
def applied : List Token → List String
  | ident name :: leftParen :: rightParen :: ts => name :: applied ts
  | _ :: ts => applied ts
  | [] => []

/-- Whether tokens start with an opening parenthesis. -/
def Opens (ts : List Token) : Prop := ts.head? = some leftParen

variable {ts : List Token} {x : String}

theorem applied_cons {t : Token} (ht : ∀ x, t ≠ ident x) : applied (t :: ts) = applied ts := by
  rw [applied]
  rintro x us rfl
  exact absurd rfl (ht x)

theorem applied_ident (h : ¬ Opens ts) : applied (ident x :: ts) = applied ts := by
  rw [applied]
  rintro y us - rfl
  exact h rfl

theorem applied_ident_leftParen (h : ts.head? ≠ some rightParen) :
    applied (ident x :: leftParen :: ts) = applied ts := by
  rw [applied, applied_cons (by simp)]
  rintro y us - heq
  cases heq
  exact h rfl

theorem applied_ident_dot : applied (ident x :: dot :: ts) = applied ts := by
  rw [applied_ident (by simp [Opens]), applied_cons (by simp)]

end Token

namespace Parser

open Token (applied Opens)

/-- The tokens left. -/
abbrev State.tokens (s : State) : List Token := s.rest.map Lexeme.token

/-! ## Rows of calls -/

/-- Calls after those to some functions, each with what its function returned then. -/
def Returned (b : Bindings) : List String → List (String × Json.Value) → Prop
  | _, [] => True
  | before, (name, v) :: made =>
    (∃ f, b.function? name = some f ∧ v = f before) ∧ Returned b (before ++ [name]) made

theorem returned_append {b : Bindings} {before : List String}
    {made more : List (String × Json.Value)}
    (h : Returned b before made) (h' : Returned b (before ++ made.map Prod.fst) more) :
    Returned b before (made ++ more) := by
  induction made generalizing before with
  | nil => simpa using h'
  | cons c made ih =>
    refine ⟨h.1, ih h.2 ?_⟩
    simpa using h'

/-- The result of a call is what its function returned after the calls before it. -/
theorem Returned.result {b : Bindings} {before : List String} {made : List (String × Json.Value)}
    (h : Returned b before made) {k : Nat} {name : String} {v : Json.Value}
    (hk : made[k]? = some (name, v)) :
    ∃ f, b.function? name = some f ∧ v = f (before ++ (made.map Prod.fst).take k) := by
  induction made generalizing before k with
  | nil => simp at hk
  | cons c made ih =>
    cases k with
    | zero =>
      cases hk
      simpa using h.1
    | succ k => simpa using ih h.2 hk

/-- Calls after those to some functions, in the order in which names are applied in the tokens
in view. -/
structure Makes (b : Bindings) (view : List Token) (before : List String)
    (made : List (String × Json.Value)) : Prop where
  returned : Returned b before made
  callable : ∀ c ∈ made, b.callable c.1 = true
  order : made.map Prod.fst <+: applied view

/-- The outcome of a parser that started with tokens in view and after some calls: it has made
calls in order, and they are the call nodes of its tree after those already accounted for. What
stays in view is what is left, unless that starts with an opening parenthesis. -/
inductive Tracks (b : Bindings) (view : List Token) (before : List String)
    (nodes : List (String × Json.Value)) : Outcome Expr → Prop
  | ok {e : Expr} {t : State} {made : List (String × Json.Value)} (hmade : Makes b view before made)
      (hnodes : e.callNodes = nodes ++ made) (hcalls : t.calls = before ++ made.map Prod.fst)
      (hleft : Opens t.tokens ∨ applied view = made.map Prod.fst ++ applied t.tokens) :
      Tracks b view before nodes (.ok e t)
  | failed {err : Error} {calls : List String} {made : List (String × Json.Value)}
      (hmade : Makes b view before made) (hcalls : calls = before ++ made.map Prod.fst) :
      Tracks b view before nodes (.failed err calls)

/-- An outcome that leaves the state as it was, or fails without a call. -/
def Quiet (s : State) : Outcome Expr → Prop
  | .ok _ t => t = s
  | .failed _ calls => calls = s.calls

variable {b : Bindings} {view : List Token} {before : List String}
  {nodes : List (String × Json.Value)}

theorem makes_nil : Makes b view before [] := ⟨trivial, by simp, List.nil_prefix⟩

theorem Makes.append {left : List Token} {made more : List (String × Json.Value)}
    (h : Makes b view before made) (h' : Makes b left (before ++ made.map Prod.fst) more)
    (hview : applied view = made.map Prod.fst ++ applied left) :
    Makes b view before (made ++ more) where
  returned := returned_append h.returned h'.returned
  callable c hc := (List.mem_append.1 hc).elim (h.callable c) (h'.callable c)
  order := by
    rw [List.map_append, hview]
    exact (List.prefix_append_right_inj _).2 h'.order

namespace Tracks

/-- A failure without a call. -/
theorem fail {err : Error} : Tracks b view before nodes (.failed err before) :=
  .failed makes_nil (by simp)

/-- A tree without further calls. -/
theorem done {e : Expr} {t : State} (he : e.callNodes = nodes)
    (hview : Opens t.tokens ∨ applied view = applied t.tokens) :
    Tracks b view t.calls nodes (.ok e t) :=
  .ok makes_nil (by simp [he]) (by simp) (by simpa using hview)

/-- Only the names applied in view count. -/
theorem of_view {view' : List Token} (h : applied view = applied view') {o : Outcome Expr}
    (ho : Tracks b view' before nodes o) : Tracks b view before nodes o := by
  cases ho with
  | ok hmade hnodes hcalls hleft =>
    refine .ok ⟨hmade.returned, hmade.callable, h ▸ hmade.order⟩ hnodes hcalls ?_
    rw [h]
    exact hleft
  | failed hmade hcalls => exact .failed ⟨hmade.returned, hmade.callable, h ▸ hmade.order⟩ hcalls

/-- A sequence of parsers, of which the second does nothing where the first left an opening
parenthesis. -/
theorem bind {p : Parser Expr} {f : Expr → Parser Expr} {s : State}
    (hp : Tracks b view before [] (p s))
    (hf : ∀ e t, Tracks b t.tokens t.calls (nodes ++ e.callNodes) (f e t))
    (hq : ∀ e t, Opens t.tokens → Quiet t (f e t)) :
    Tracks b view before nodes ((p >>= f) s) := by
  rw [bind_apply]
  generalize p s = o at hp
  cases hp with
  | failed hmade hcalls => exact .failed hmade hcalls
  | @ok e t made hmade hnodes hcalls hleft =>
    have hfe := hf e t
    rw [List.nil_append] at hnodes
    rw [hnodes, hcalls] at hfe
    show Tracks b view before nodes (f e t)
    rcases hleft with hopen | hview
    · -- the second parser has made no call, so the calls are those of the first
      have hquiet := hq e t hopen
      generalize f e t = o at hfe hquiet
      cases hfe with
      | ok hmade' hnodes' hcalls' hleft' =>
        cases hquiet
        rw [hcalls, List.self_eq_append_right, List.map_eq_nil_iff] at hcalls'
        subst hcalls'
        rw [List.append_nil] at hnodes'
        exact .ok hmade hnodes' hcalls (.inl hopen)
      | failed hmade' hcalls' => exact .failed hmade (hquiet.trans hcalls)
    · generalize f e t = o at hfe
      cases hfe with
      | ok hmade' hnodes' hcalls' hleft' =>
        refine .ok (hmade.append hmade' hview) (by rw [hnodes', List.append_assoc])
          (by rw [hcalls', List.map_append, List.append_assoc]) (hleft'.imp_right fun h => ?_)
        rw [hview, h, List.map_append, List.append_assoc]
      | failed hmade' hcalls' =>
        refine .failed (hmade.append hmade' hview) ?_
        rw [hcalls', List.map_append, List.append_assoc]

/-- A tree put around the one that a parser returns. -/
theorem map {p : Parser Expr} {g : Expr → Expr} {s : State}
    (hg : ∀ e, (g e).callNodes = nodes ++ e.callNodes) (hp : Tracks b view before [] (p s)) :
    Tracks b view before nodes ((p >>= fun e => pure (g e)) s) :=
  hp.bind (fun e _ => .done (hg e) (.inr rfl)) fun _ _ _ => rfl

end Tracks

/-! ## Single tokens -/

section

variable {α β : Type} {p : Parser α} {f : α → Parser β} {s t : State}

theorem bind_of_ok {a : α} (h : p s = .ok a t) : (p >>= f) s = f a t := by
  rw [bind_apply, h]

theorem bind_of_failed {err : Error} {calls : List String} (h : p s = .failed err calls) :
    (p >>= f) s = .failed err calls := by
  rw [bind_apply, h]

end

variable (ctx : Context) {s : State} {p : Parser Expr} {f : String → Parser Expr}

theorem eat_cases (token : Token) (s : State) :
    (∃ rest, s.tokens = token :: rest.map Lexeme.token ∧ eat token s = .ok true ⟨rest, s.calls⟩) ∨
    s.tokens.head? ≠ some token ∧ eat token s = .ok false s := by
  obtain ⟨rest, calls⟩ := s
  cases rest with
  | nil => exact .inr ⟨by simp [State.tokens], rfl⟩
  | cons l rest =>
    by_cases h : l.token = token
    · exact .inl ⟨rest, by simp [State.tokens, h], by simp [eat, h]⟩
    · exact .inr ⟨by simpa [State.tokens] using h, by simp [eat, h]⟩

theorem expect_cases (token : Token) (s : State) :
    (∃ rest, s.tokens = token :: rest.map Lexeme.token ∧
      expect ctx token s = .ok () ⟨rest, s.calls⟩) ∨
    s.tokens.head? ≠ some token ∧ ∃ err, expect ctx token s = .failed err s.calls := by
  unfold expect
  rcases eat_cases token s with ⟨rest, htokens, heat⟩ | ⟨hne, heat⟩
  · exact .inl ⟨rest, htokens, by rw [bind_of_ok heat]; rfl⟩
  · exact .inr ⟨hne, _, by rw [bind_of_ok heat]; rfl⟩

theorem identifier_cases (s : State) :
    (∃ x rest, s.tokens = .ident x :: rest.map Lexeme.token ∧
      identifier ctx s = .ok x ⟨rest, s.calls⟩) ∨
    ∃ err, identifier ctx s = .failed err s.calls := by
  obtain ⟨rest, calls⟩ := s
  rcases rest with _ | ⟨⟨token, o⟩, rest⟩
  · exact .inr ⟨_, rfl⟩
  · cases token with
    | ident x => exact .inl ⟨x, rest, rfl, rfl⟩
    | _ => exact .inr ⟨_, rfl⟩

namespace Tracks

variable {ctx} {rest : List Lexeme}

theorem expect {token : Token}
    (h : ∀ left, rest.map Lexeme.token = token :: left.map Lexeme.token →
      Tracks b view before nodes (p ⟨left, before⟩)) :
    Tracks b view before nodes ((Parser.expect ctx token >>= fun _ => p) ⟨rest, before⟩) := by
  rcases expect_cases ctx token ⟨rest, before⟩ with ⟨left, htokens, hs⟩ | ⟨-, err, hs⟩
  · rw [bind_of_ok hs]
    exact h left htokens
  · rw [bind_of_failed hs]
    exact .fail

theorem identifier
    (h : ∀ x left, rest.map Lexeme.token = .ident x :: left.map Lexeme.token →
      Tracks b view before nodes (f x ⟨left, before⟩)) :
    Tracks b view before nodes ((Parser.identifier ctx >>= f) ⟨rest, before⟩) := by
  rcases identifier_cases ctx ⟨rest, before⟩ with ⟨x, left, htokens, hs⟩ | ⟨err, hs⟩
  · rw [bind_of_ok hs]
    exact h x left htokens
  · rw [bind_of_failed hs]
    exact .fail

/-- What is left after a name, in a tree without further calls. -/
theorem name {e : Expr} (he : e.callNodes = nodes) (x : String) :
    Tracks b (.ident x :: rest.map Lexeme.token) before nodes (.ok e ⟨rest, before⟩) := by
  by_cases hopen : Opens (rest.map Lexeme.token)
  · exact .done (t := ⟨rest, before⟩) he (.inl hopen)
  · exact .done (t := ⟨rest, before⟩) he (.inr (Token.applied_ident hopen))

end Tracks

/-- An opening parenthesis is no token that is expected after an operand. -/
theorem quiet_expect {token : Token} (ht : token ≠ .leftParen) (h : Opens s.tokens) :
    Quiet s ((expect ctx token >>= fun _ => p) s) := by
  rcases expect_cases ctx token s with ⟨rest, htokens, -⟩ | ⟨-, err, hs⟩
  · rw [htokens] at h
    exact absurd (Option.some.inj h) ht
  · rw [bind_of_failed hs]
    rfl

/-! ## Fields -/

/-- A row of fields makes no call. -/
theorem tracks_fieldsFrom (object : Expr) {rest : List Lexeme} {calls : List String}
    (hview : Opens (rest.map Lexeme.token) ∨ applied view = applied (rest.map Lexeme.token)) :
    Tracks b view calls object.callNodes (fieldsFrom ctx object rest calls) := by
  fun_induction fieldsFrom ctx object rest calls with
  | case1 object o field o' rest calls ih =>
    -- a dot is in front, so the names in view are those applied from here on
    refine ih ?_
    rcases hview with hopen | hview
    · cases hopen
    · by_cases hopen : Opens (rest.map Lexeme.token)
      · exact .inl hopen
      · rw [hview, List.map_cons, List.map_cons, Token.applied_cons (by simp),
          Token.applied_ident hopen]
        exact .inr rfl
  | case2 => exact .fail
  | case3 object rest calls => exact .done (t := ⟨rest, calls⟩) rfl hview

/-! ## The vocabulary -/

/-- A parser of trees that makes the calls of the lexemes it takes, in order, and that fails
without a call where a closing parenthesis stands. -/
structure Follows (b : Bindings) (p : Parser Expr) : Prop where
  tracks : ∀ s, Tracks b s.tokens s.calls [] (p s)
  closing : ∀ s, s.tokens.head? = some .rightParen → ∃ err, p s = .failed err s.calls

/-- After a name and an opening parenthesis a parser makes the calls in view: if the name is an
applied one, the parser fails. -/
theorem Follows.after_leftParen (hp : Follows b p) (x : String) (rest : List Lexeme)
    (calls : List String) :
    Tracks b (.ident x :: .leftParen :: rest.map Lexeme.token) calls [] (p ⟨rest, calls⟩) := by
  by_cases hclose : (rest.map Lexeme.token).head? = some .rightParen
  · obtain ⟨err, hs⟩ := hp.closing ⟨rest, calls⟩ hclose
    rw [hs]
    exact .fail
  · exact (hp.tracks ⟨rest, calls⟩).of_view (Token.applied_ident_leftParen hclose)

variable {ctx} {nested : Parser Expr} {rest : List Lexeme}

/-- A closing parenthesis ends a tree without further calls. -/
theorem tracks_rightParen {e : Expr} (he : e.callNodes = nodes) :
    Tracks b (rest.map Lexeme.token) before nodes
      ((expect ctx .rightParen >>= fun _ => pure e) ⟨rest, before⟩) := by
  refine .expect fun left htokens => ?_
  refine .done (t := ⟨left, before⟩) he (.inr ?_)
  rw [htokens, Token.applied_cons (by simp)]

section Vocabulary

variable (hn : Follows b nested) (x : String)

include hn

theorem tracks_argument :
    Tracks b (.ident x :: rest.map Lexeme.token) before []
      (argument ctx nested ⟨rest, before⟩) := by
  unfold argument
  refine .expect fun left htokens => ?_
  rw [htokens]
  refine (hn.after_leftParen x left before).bind (fun e t => ?_) fun e t hopen => ?_
  · rw [bind_of_ok (p := peek) rfl]
    split
    · exact .fail
    · exact tracks_rightParen rfl
  · rw [bind_of_ok (p := peek) rfl]
    split
    · rfl
    · exact quiet_expect ctx (by simp) hopen

theorem tracks_containsForm (subject : Path) :
    Tracks b (.ident x :: rest.map Lexeme.token) before []
      (containsForm ctx nested subject ⟨rest, before⟩) :=
  (tracks_argument hn x).map fun _ => rfl

omit hn in
theorem attributeName_cases (ctx : Context) (rest : List Lexeme) (before : List String) :
    (∃ token name left, rest.map Lexeme.token = token :: left.map Lexeme.token ∧
      ((∃ quoted, token = .str quoted) ∨ ∃ x, token = .ident x) ∧
      attributeName ctx ⟨rest, before⟩ = .ok name ⟨left, before⟩) ∨
    ∃ err, attributeName ctx ⟨rest, before⟩ = .failed err before := by
  rcases rest with _ | ⟨⟨token, o⟩, rest⟩
  · exact .inr ⟨_, rfl⟩
  · have hadvance : advance ⟨⟨token, o⟩ :: rest, before⟩ = .ok (some token) ⟨rest, before⟩ := rfl
    unfold attributeName
    rw [bind_of_ok hadvance]
    cases token with
    | str quoted => exact .inl ⟨_, quoted, rest, rfl, .inl ⟨quoted, rfl⟩, rfl⟩
    | ident x =>
      simp only
      cases ctx.bindings.value? x with
      | none => exact .inr ⟨_, rfl⟩
      | some v =>
        cases v with
        | string name => exact .inl ⟨_, name, rest, rfl, .inr ⟨x, rfl⟩, rfl⟩
        | _ => exact .inr ⟨_, rfl⟩
    | _ => exact .inr ⟨_, rfl⟩

omit hn in
/-- The name of an attribute in parentheses is no applied name. -/
theorem applied_attribute {token : Token}
    (ht : (∃ quoted, token = .str quoted) ∨ ∃ x, token = .ident x) (ts : List Token) :
    applied (.ident x :: .leftParen :: token :: .rightParen :: ts) = applied ts := by
  rcases ht with ⟨quoted, rfl⟩ | ⟨y, rfl⟩
  · rw [Token.applied_ident_leftParen (by simp), Token.applied_cons (by simp),
      Token.applied_cons (by simp)]
  · rw [Token.applied_ident_leftParen (by simp), Token.applied_ident (by simp [Opens]),
      Token.applied_cons (by simp)]

theorem tracks_attributeForm (owner : Owner) :
    Tracks b (.ident x :: rest.map Lexeme.token) before []
      (attributeForm ctx nested owner ⟨rest, before⟩) := by
  unfold attributeForm
  -- up to the member nothing is called, and no name before it is an applied one
  refine .expect fun left₁ htokens₁ => ?_
  rcases attributeName_cases ctx left₁ before with
    ⟨token, name, left₂, htokens₂, htoken, hs⟩ | ⟨err, hs⟩
  · rw [bind_of_ok hs]
    refine .expect fun left₃ htokens₃ => ?_
    refine .expect fun left₄ htokens₄ => ?_
    refine .identifier fun field left₅ htokens₅ => ?_
    have hview : applied (.ident x :: rest.map Lexeme.token) =
        applied (.ident field :: left₅.map Lexeme.token) := by
      rw [htokens₁, htokens₂, htokens₃, applied_attribute x htoken, htokens₄,
        Token.applied_cons (by simp), htokens₅]
    refine .of_view hview ?_
    split
    · exact .name (by rfl) _
    · exact tracks_containsForm hn _ _
    · exact .fail
  · rw [bind_of_failed hs]
    exact .fail

theorem tracks_textForm (owner : Owner) :
    Tracks b (.ident x :: rest.map Lexeme.token) before []
      (textForm ctx nested owner ⟨rest, before⟩) := by
  unfold textForm
  split
  · rename_i o o' left hrest
    obtain rfl : rest = _ := hrest
    exact (tracks_containsForm hn "Contains" _).of_view Token.applied_ident_dot
  · exact .name (by rfl) x

theorem tracks_vocabulary (head : Head) :
    Tracks b (.ident x :: rest.map Lexeme.token) before []
      (vocabulary ctx nested head ⟨rest, before⟩) := by
  unfold vocabulary
  split
  · exact .name (by rfl) x
  · exact .name (by rfl) x
  · exact tracks_textForm hn x .target
  · exact tracks_attributeForm hn x .target
  · refine .expect fun left htokens => ?_
    refine .identifier fun field left' htokens' => ?_
    rw [htokens, htokens']
    refine .of_view Token.applied_ident_dot ?_
    split
    · exact tracks_attributeForm hn _ .parent
    · exact tracks_textForm hn _ .parent
    · cases head.field? field with
      | some m => exact .name (by rfl) _
      | none => exact .fail

end Vocabulary

/-! ## Operands -/

/-- A call takes its name off the names in view, and its result is what the function returned. -/
theorem Tracks.called {name : String} {g : Function} {ts : List Token} {o : Outcome Expr}
    (hg : b.function? name = some g) (hname : b.callable name = true)
    (ho : Tracks b ts (before ++ [name]) [(name, g before)] o) :
    Tracks b (.ident name :: .leftParen :: .rightParen :: ts) before [] o := by
  have hmakes : ∀ {made : List (String × Json.Value)}, Makes b ts (before ++ [name]) made →
      Makes b (.ident name :: .leftParen :: .rightParen :: ts) before
        ((name, g before) :: made) := by
    intro made hmade
    refine ⟨⟨⟨g, hg, rfl⟩, hmade.returned⟩, ?_, ?_⟩
    · rw [List.forall_mem_cons]
      exact ⟨hname, hmade.callable⟩
    · exact (List.prefix_cons_inj name).2 hmade.order
  cases ho with
  | ok hmade hnodes hcalls hleft =>
    refine .ok (hmakes hmade) hnodes ?_ (hleft.imp_right fun h => ?_)
    · rw [hcalls, List.append_assoc]
      rfl
    · rw [Token.applied, h]
      rfl
  | failed hmade hcalls =>
    refine .failed (hmakes hmade) ?_
    rw [hcalls, List.append_assoc]
    rfl

section Operands

variable (hn : Follows ctx.bindings nested)

include hn

theorem tracks_receiver (x : String) (start : Nat) :
    Tracks ctx.bindings (.ident x :: rest.map Lexeme.token) before []
      (receiver ctx nested start ⟨rest, before⟩) := by
  unfold receiver
  refine .expect fun left htokens => ?_
  refine .identifier fun word left' htokens' => ?_
  rw [htokens, htokens']
  refine .of_view Token.applied_ident_dot ?_
  cases Head.ofWord? word with
  | some head => exact tracks_vocabulary hn word head
  | none => exact .fail

theorem tracks_application {name : String} (ht : name ≠ "true") (hf : name ≠ "false")
    (hh : Head.ofWord? name = none) :
    Tracks ctx.bindings (.ident name :: .leftParen :: rest.map Lexeme.token) before []
      (application ctx nested name ⟨rest, before⟩) := by
  unfold application
  cases hk : LiteralKind.ofWord? name with
  | some kind =>
    -- a conversion of nothing fails at its closing parenthesis, before any call
    refine (hn.after_leftParen name rest before).bind (fun e t => ?_) fun e t hopen => ?_
    · exact tracks_rightParen (by rfl)
    · exact quiet_expect ctx (by simp) hopen
  | none =>
    refine .expect fun left htokens => ?_
    rw [htokens]
    cases hg : ctx.bindings.function? name with
    | none => exact .fail
    | some g =>
      have hname : ctx.bindings.callable name = true := by
        simp [Bindings.callable, hg, ht, hf, hh, hk]
      refine .called hg hname ?_
      exact tracks_fieldsFrom ctx (.call name (g before)) (.inr rfl)

theorem tracks_named (name : String) (start : Nat) :
    Tracks ctx.bindings (.ident name :: rest.map Lexeme.token) before []
      (named ctx nested name start ⟨rest, before⟩) := by
  unfold named
  split
  · exact tracks_receiver hn name start
  split
  · exact .name (by rfl) _
  rename_i ht
  split
  · exact .name (by rfl) _
  rename_i hf
  cases hh : Head.ofWord? name with
  | some head => exact tracks_vocabulary hn name head
  | none =>
    show Tracks ctx.bindings _ before []
      ((eat .leftParen >>= fun opened => if opened = true then application ctx nested name
        else captured ctx name start) ⟨rest, before⟩)
    rcases eat_cases .leftParen ⟨rest, before⟩ with ⟨left, htokens, heat⟩ | ⟨hopen, heat⟩
    · rw [bind_of_ok heat]
      have hview : rest.map Lexeme.token = .leftParen :: left.map Lexeme.token := htokens
      rw [hview]
      exact tracks_application hn ht hf hh
    · rw [bind_of_ok heat]
      show Tracks ctx.bindings _ before [] (captured ctx name start ⟨rest, before⟩)
      unfold captured
      cases ctx.bindings.value? name with
      | none => exact .fail
      | some v =>
        exact tracks_fieldsFrom ctx (.captured name v) (.inr (Token.applied_ident hopen))

theorem tracks_operand :
    Tracks ctx.bindings (rest.map Lexeme.token) before [] (operand ctx nested ⟨rest, before⟩) := by
  unfold operand
  rw [bind_of_ok (p := offset ctx) rfl]
  rcases rest with _ | ⟨⟨token, o⟩, rest⟩
  · exact .fail
  · have hadvance : advance ⟨⟨token, o⟩ :: rest, before⟩ = .ok (some token) ⟨rest, before⟩ := rfl
    rw [bind_of_ok hadvance]
    cases token with
    | leftParen =>
      refine .of_view (Token.applied_cons (by simp)) ?_
      refine (hn.tracks ⟨rest, before⟩).bind (fun e t => ?_) fun e t hopen => ?_
      · exact tracks_rightParen rfl
      · exact quiet_expect ctx (by simp) hopen
    | str s => exact .done (t := ⟨rest, before⟩) (by rfl) (.inr (Token.applied_cons (by simp)))
    | int i => exact .done (t := ⟨rest, before⟩) (by rfl) (.inr (Token.applied_cons (by simp)))
    | ident name => exact tracks_named hn name _
    | _ => exact .fail

omit hn in
theorem operand_closing (ctx : Context) (nested : Parser Expr)
    (h : (rest.map Lexeme.token).head? = some .rightParen) :
    ∃ err, operand ctx nested ⟨rest, before⟩ = .failed err before := by
  rcases rest with _ | ⟨⟨token, o⟩, rest⟩
  · cases h
  · cases h
    exact ⟨_, rfl⟩

theorem follows_comparison : Follows ctx.bindings (comparison ctx nested) where
  tracks s := by
    unfold comparison
    refine (tracks_operand hn).bind (fun left t => ?_) fun left t hopen => ?_
    · rcases eat_cases .equals t with ⟨rest, htokens, heat⟩ | ⟨-, heat⟩
      · rw [bind_of_ok heat, htokens]
        refine .of_view (Token.applied_cons (by simp)) ?_
        exact (tracks_operand hn).map fun right => rfl
      · rw [bind_of_ok heat]
        exact .done rfl (.inr rfl)
    · rcases eat_cases .equals t with ⟨rest, htokens, heat⟩ | ⟨-, heat⟩
      · rw [htokens] at hopen
        cases hopen
      · rw [bind_of_ok heat]
        rfl
  closing s h := by
    obtain ⟨err, hs⟩ := operand_closing ctx nested h
    exact ⟨err, bind_of_failed hs⟩

end Operands

/-! ## Connectives -/

open Grammar (Connective)

/-- One link of a chain: its operator, the next item and the links after it. -/
theorem links_cons (operator : Token) (join : Expr → Expr → Expr) (item : Parser Expr) (bound : Nat)
    (left : Expr) (l : Lexeme) (rest : List Lexeme) (calls : List String) :
    links operator join item (bound + 1) left ⟨l :: rest, calls⟩ =
      if l.token = operator then
        (item >>= fun right => links operator join item bound (join left right)) ⟨rest, calls⟩
      else .ok left ⟨l :: rest, calls⟩ := by
  simp only [links, bind_apply]
  split
  · cases item ⟨rest, calls⟩ <;> rfl
  · rfl

section Chains

variable {item : Parser Expr} (hi : Follows b item) (c : Connective)

omit hi in
theorem links_of_opens (h : Opens s.tokens) (bound : Nat) (left : Expr) :
    links c.token c.join item bound left s = .ok left s := by
  obtain ⟨_ | ⟨⟨token, o⟩, rest⟩, calls⟩ := s
  · cases h
  · cases h
    cases bound with
    | zero => rfl
    | succ bound => cases c <;> rfl

include hi

theorem tracks_links (bound : Nat) (left : Expr) (s : State) :
    Tracks b s.tokens s.calls left.callNodes (links c.token c.join item bound left s) := by
  induction bound generalizing left s with
  | zero => exact .done rfl (.inr rfl)
  | succ bound ih =>
    obtain ⟨rest, calls⟩ := s
    rcases rest with _ | ⟨⟨token, o⟩, rest⟩
    · exact .done (t := ⟨[], calls⟩) rfl (.inr rfl)
    · rw [links_cons]
      split
      · rename_i ht
        obtain rfl : token = c.token := ht
        have hop : ∀ x, c.token ≠ .ident x := by cases c <;> simp [Connective.token]
        refine .of_view (Token.applied_cons hop) ?_
        refine (hi.tracks ⟨rest, calls⟩).bind (fun right t => ?_) fun right t hopen => ?_
        · have hnodes : left.callNodes ++ right.callNodes = (c.join left right).callNodes := by
            cases c <;> rfl
          rw [hnodes]
          exact ih _ t
        · rw [links_of_opens c hopen]
          rfl
      · exact .done (t := ⟨⟨token, o⟩ :: rest, calls⟩) rfl (.inr rfl)

theorem follows_chain : Follows b (chain c.token c.join item) where
  tracks s := by
    unfold chain
    refine (hi.tracks s).bind (fun first t => ?_) fun first t hopen => ?_
    · exact tracks_links hi c _ first t
    · rw [links_of_opens c hopen]
      rfl
  closing s h := by
    obtain ⟨err, hs⟩ := hi.closing s h
    exact ⟨err, bind_of_failed hs⟩

end Chains

theorem follows_disjunction {unary : Parser Expr} (hu : Follows b unary) :
    Follows b (disjunction unary) :=
  follows_chain (follows_chain hu .and) .or

theorem follows_unary (ctx : Context) (depth : Nat) : Follows ctx.bindings (unary ctx depth) := by
  -- the induction is on the levels of nesting left, where the parsers are tied together
  induction depth with
  | zero => exact ⟨fun s => .fail, fun s _ => ⟨_, rfl⟩⟩
  | succ depth ih =>
    have hc := follows_comparison (follows_disjunction ih)
    unfold unary
    refine ⟨fun s => ?_, fun s h => ?_⟩
    · rcases eat_cases .bang s with ⟨rest, htokens, heat⟩ | ⟨-, heat⟩
      · rw [bind_of_ok heat, htokens]
        refine .of_view (Token.applied_cons (by simp)) ?_
        exact (ih.tracks ⟨rest, s.calls⟩).map fun e => rfl
      · rw [bind_of_ok heat]
        exact hc.tracks s
    · rcases eat_cases .bang s with ⟨rest, htokens, -⟩ | ⟨-, heat⟩
      · rw [htokens] at h
        cases h
      · rw [bind_of_ok heat]
        exact hc.closing s h

theorem tracks_whole (ctx : Context) (s : State) :
    Tracks ctx.bindings s.tokens s.calls [] (whole ctx s) := by
  unfold whole
  have hbody := follows_disjunction (follows_unary ctx maxDepth)
  refine (hbody.tracks s).bind (fun e t => ?_) fun e t hopen => ?_
  · rw [bind_of_ok (p := peek) rfl]
    cases t.rest.head?.map (·.token) with
    | none => exact .done rfl (.inr rfl)
    | some token => exact .fail
  · rw [bind_of_ok (p := peek) rfl]
    cases t.rest.head?.map (·.token) with
    | none => rfl
    | some token => rfl

theorem rest_of_whole {e : Expr} {t : State} (h : whole ctx s = .ok e t) : t.rest = [] := by
  obtain ⟨a, ⟨rest, calls⟩, -, hpeek⟩ := bind_eq_ok.1 h
  cases rest with
  | nil =>
    cases hpeek
    rfl
  | cons l rest => cases hpeek

/-! ## Whole texts -/

/-- A lambda header applies no name. -/
theorem applied_header (lexemes : List Lexeme) :
    applied (lexemes.map Lexeme.token) = applied ((header lexemes).2.map Lexeme.token) := by
  rcases header_cases lexemes with ⟨p, rest, hh, htokens⟩ | ⟨hh, -⟩
  · rw [hh, htokens, Token.applied_ident (by simp [Opens]), Token.applied_cons (by simp)]
  · rw [hh]

/-- The calls of a parse are made in order, and those of a tree are all of the row and its call
nodes. -/
theorem makes_parseLexemes (b : Bindings) (finish : Nat) (lexemes : List Lexeme) :
    ∃ made, Makes b (lexemes.map Lexeme.token) [] made ∧
      (parseLexemes b finish lexemes).calls = made.map Prod.fst ∧
      ∀ e, (parseLexemes b finish lexemes).result = .ok e →
        e.callNodes = made ∧ applied (lexemes.map Lexeme.token) = made.map Prod.fst := by
  unfold parseLexemes
  split
  · exact ⟨[], makes_nil, rfl, by rintro e ⟨⟩⟩
  · have hview := applied_header lexemes
    generalize header lexemes = h at hview
    obtain ⟨parameter, rest⟩ := h
    have htracks := (tracks_whole ⟨b, parameter, finish⟩ ⟨rest, []⟩).of_view hview
    dsimp only
    generalize hw : whole ⟨b, parameter, finish⟩ ⟨rest, []⟩ = o at htracks
    cases htracks with
    | failed hmade hcalls => exact ⟨_, hmade, hcalls, by rintro e ⟨⟩⟩
    | @ok e t made hmade hnodes hcalls hleft =>
      refine ⟨made, hmade, hcalls, ?_⟩
      rintro e ⟨⟩
      -- all lexemes are taken, so no opening parenthesis is left
      rw [State.tokens, rest_of_whole hw] at hleft
      rcases hleft with hopen | happlied
      · cases hopen
      · exact ⟨hnodes, happlied.trans (List.append_nil _)⟩

end Parser

/-- Functions are called once for each place where one is applied, in the order of the text. The
calls of a text that is parsed are all names applied in it and the call nodes of the tree, each
with what its function returned after the calls before it. A text that is not parsed has made some
first calls to functions applied in it, and a text with a lexical error none. -/
theorem Expr.parse_calls (source : String) (b : Bindings) :
    (∀ e, (parse source b).result = .ok e →
      (parse source b).calls = e.callNodes.map Prod.fst ∧
      (∀ k name v, e.callNodes[k]? = some (name, v) →
        ∃ f, b.function? name = some f ∧ v = f ((parse source b).calls.take k)) ∧
      ∃ lexemes, Token.tokenize source.toList = .ok lexemes ∧
        (parse source b).calls = Token.applied (lexemes.map Lexeme.token)) ∧
    (∀ err lexemes, (parse source b).result = .error err →
      Token.tokenize source.toList = .ok lexemes →
      (parse source b).calls <+: (Token.applied (lexemes.map Lexeme.token)).filter b.callable) ∧
    ∀ err, Token.tokenize source.toList = .error err →
      (parse source b).result = .error err ∧ (parse source b).calls = [] := by
  unfold parse Parser.parseChars
  cases htokens : Token.tokenize source.toList with
  | error err =>
    refine ⟨?_, ?_, ?_⟩
    · rintro e ⟨⟩
    · rintro err' lexemes - ⟨⟩
    · rintro err' ⟨⟩
      exact ⟨rfl, rfl⟩
  | ok lexemes =>
    obtain ⟨made, hmade, hcalls, hok⟩ :=
      Parser.makes_parseLexemes b (Text.byteLength source.toList) lexemes
    dsimp only
    rw [hcalls]
    refine ⟨fun e he => ?_, ?_, ?_⟩
    · obtain ⟨rfl, happlied⟩ := hok e he
      exact ⟨rfl, fun k name v hk => hmade.returned.result hk, lexemes, rfl, happlied.symm⟩
    · rintro err lexemes' - ⟨⟩
      have hcallable : (made.map Prod.fst).filter b.callable = made.map Prod.fst := by
        rw [List.filter_eq_self, List.forall_mem_map]
        exact hmade.callable
      rw [← hcallable]
      exact hmade.order.filter _
    · rintro err ⟨⟩

/-- A function that counts is called twice where both places are reached, and only once where an
unbound name stands between them. -/
theorem Expr.parse_calls_counted :
    (parse "next() == next()" ⟨[], [("next", .cycling "next" [.int 1, .int 2])]⟩).result =
        .ok (.eq (.call "next" (.int 1)) (.call "next" (.int 2))) ∧
      (parse "next() == next()" ⟨[], [("next", .cycling "next" [.int 1, .int 2])]⟩).calls =
        ["next", "next"] ∧
      (parse "next() == x && next()" ⟨[], [("next", .cycling "next" [.int 1, .int 2])]⟩).calls =
        ["next"] := by
  have hresult :
      (parse "next() == next()" ⟨[], [("next", .cycling "next" [.int 1, .int 2])]⟩).result =
        .ok (.eq (.call "next" (.int 1)) (.call "next" (.int 2))) := by
    cbv
  exact ⟨hresult, ((parse_calls _ _).1 _ hresult).1, by cbv⟩

end ElementQuery
