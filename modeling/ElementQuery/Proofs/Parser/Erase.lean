/-
Predicate text under a variable and under its erasure: a text that names a variable bound to a
scalar gives the same location path, or fails alike, as with the variable bound to the text of that
scalar. The exception is the name of an attribute, where a variable has to be bound to a text: a
scalar of another kind is refused there.

Two runs of the parser go in step: from the same lexemes they take the same ones and build alike
trees, or they fail with the same error, unless the second run is refused.
-/
import ElementQuery.Expr.XPath
import ElementQuery.Proofs.Expr.Erase

namespace ElementQuery

namespace Parser

/-! ## Runs in step -/

/-- Two runs that end in the same state with related values, or with the same error, unless the
second is refused. -/
inductive Outcome.InStep (Refused : Error → Prop) {α : Type} (R : α → α → Prop) :
    Outcome α → Outcome α → Prop
  | ok {a a' : α} (s : State) (h : R a a') : InStep Refused R (.ok a s) (.ok a' s)
  | failed (e : Error) (calls : List String) : InStep Refused R (.failed e calls) (.failed e calls)
  | refused {e : Error} (h : Refused e) (calls : List String) (o : Outcome α) :
      InStep Refused R o (.failed e calls)

/-- Two parsers that run in step from every state. -/
def InStep (Refused : Error → Prop) {α : Type} (R : α → α → Prop) (p p' : Parser α) : Prop :=
  ∀ s, (p s).InStep Refused R (p' s)

namespace InStep

variable {Refused : Error → Prop} {α β : Type} {R : α → α → Prop} {S : β → β → Prop}

theorem same (p : Parser α) : InStep Refused Eq p p := by
  intro s
  cases p s with
  | ok a t => exact .ok t rfl
  | failed e calls => exact .failed e calls

theorem pure {a a' : α} (h : R a a') : InStep Refused R (Pure.pure a) (Pure.pure a') :=
  fun s => .ok s h

theorem throw (e : Error) : InStep Refused R (Parser.throw e) (Parser.throw e) :=
  fun s => .failed e s.calls

theorem fail (ctx : Context) (fault : Fault) :
    InStep Refused R (Parser.fail ctx fault) (Parser.fail ctx fault) :=
  fun s => .failed _ s.calls

theorem bind {p p' : Parser α} {f f' : α → Parser β} (hp : InStep Refused R p p')
    (hf : ∀ a a', R a a' → InStep Refused S (f a) (f' a')) :
    InStep Refused S (p >>= f) (p' >>= f') := by
  intro s
  rw [bind_apply, bind_apply]
  have hs := hp s
  generalize p s = o at hs ⊢
  generalize p' s = o' at hs ⊢
  cases hs with
  | ok t h => exact hf _ _ h t
  | failed e calls => exact .failed e calls
  | refused h calls o => exact .refused h calls _

/-- Both runs go through a part that they share. -/
theorem after (p : Parser α) {f f' : α → Parser β} (hf : ∀ a, InStep Refused S (f a) (f' a)) :
    InStep Refused S (p >>= f) (p >>= f') := by
  refine (same p).bind ?_
  rintro a _ rfl
  exact hf a

end InStep

/-! ## Parsers of trees -/

/-- Two parsers that run in step and build trees with the same texts. -/
abbrev BuildAlike (Refused : Error → Prop) (p p' : Parser Expr) : Prop :=
  InStep Refused (Expr.Alike Literal.SameText) p p'

variable {Refused : Error → Prop} {nested nested' : Parser Expr}

theorem buildAlike_links {operator : Token} {join : Expr → Expr → Expr} {item item' : Parser Expr}
    (hj : ∀ {l r l' r' : Expr}, l.Alike Literal.SameText l' → r.Alike Literal.SameText r' →
      (join l r).Alike Literal.SameText (join l' r'))
    (hi : BuildAlike Refused item item') (bound : Nat) {left left' : Expr}
    (hl : left.Alike Literal.SameText left') :
    BuildAlike Refused (links operator join item bound left)
      (links operator join item' bound left') := by
  induction bound generalizing left left' with
  | zero => exact fun s => .ok s hl
  | succ bound ih =>
    rintro ⟨rest, calls⟩
    rcases rest with _ | ⟨l, rest⟩
    · exact .ok _ hl
    · simp only [links]
      split
      · have hs := hi ⟨rest, calls⟩
        generalize item ⟨rest, calls⟩ = o at hs ⊢
        generalize item' ⟨rest, calls⟩ = o' at hs ⊢
        cases hs with
        | ok t hr => exact ih (hj hl hr) t
        | failed e calls => exact .failed e calls
        | refused h calls o => exact .refused h calls _
      · exact .ok _ hl

theorem buildAlike_chain {operator : Token} {join : Expr → Expr → Expr} {item item' : Parser Expr}
    (hj : ∀ {l r l' r' : Expr}, l.Alike Literal.SameText l' → r.Alike Literal.SameText r' →
      (join l r).Alike Literal.SameText (join l' r'))
    (hi : BuildAlike Refused item item') :
    BuildAlike Refused (chain operator join item) (chain operator join item') := by
  unfold chain
  exact hi.bind fun l l' hl s => buildAlike_links hj hi s.rest.length hl s

theorem buildAlike_disjunction {unary unary' : Parser Expr} (hu : BuildAlike Refused unary unary') :
    BuildAlike Refused (disjunction unary) (disjunction unary') :=
  buildAlike_chain .or (buildAlike_chain .and hu)

/-! ## Contexts -/

/-- A context with other bindings. -/
def Context.rebind (ctx : Context) (b : Bindings) : Context := { ctx with bindings := b }

/-- Fields of alike values are alike. -/
theorem inStep_fieldsFrom (ctx : Context) (b : Bindings) :
    ∀ (rest : List Lexeme) (calls : List String) (object object' : Expr),
      object.Alike Literal.SameText object' →
      (fieldsFrom ctx object rest calls).InStep Refused (Expr.Alike Literal.SameText)
        (fieldsFrom (ctx.rebind b) object' rest calls)
  | [], calls, object, object', h => .ok _ h
  | [⟨token, _⟩], calls, object, object', h => by
    cases token with
    | dot => exact .failed _ _
    | _ => exact .ok _ h
  | ⟨token, _⟩ :: ⟨token', _⟩ :: rest, calls, object, object', h => by
    cases token with
    | dot =>
      cases token' with
      | ident field => exact inStep_fieldsFrom ctx b rest calls _ _ (.member field h)
      | _ => exact .failed _ _
    | _ => exact .ok _ h

theorem buildAlike_fields (ctx : Context) (b : Bindings) {object object' : Expr}
    (h : object.Alike Literal.SameText object') :
    BuildAlike Refused (fields ctx object) (fields (ctx.rebind b) object') :=
  fun s => inStep_fieldsFrom ctx b s.rest s.calls object object' h

/-- Other bindings under which look-ups go in step with those of a context. -/
structure Rebinds (Refused : Error → Prop) (ctx : Context) (b : Bindings) : Prop where
  values : ∀ x, Option.Rel (Json.Value.Alike Literal.SameText) (ctx.bindings.value? x) (b.value? x)
  functions : ∀ f, b.function? f = ctx.bindings.function? f
  attributeNames : InStep Refused Eq (attributeName ctx) (attributeName (ctx.rebind b))

namespace Rebinds

variable {ctx : Context} {b : Bindings} (hb : Rebinds Refused ctx b)

section Vocabulary

variable (hn : BuildAlike Refused nested nested')

include hn in
theorem argument :
    BuildAlike Refused (Parser.argument ctx nested) (Parser.argument (ctx.rebind b) nested') := by
  unfold Parser.argument
  refine .after (expect ctx .leftParen) fun _ => ?_
  refine hn.bind fun e e' he => ?_
  refine .after peek fun next => ?_
  split
  · exact .fail ctx .containsArity
  · exact .after (expect ctx .rightParen) fun _ => .pure he

include hn in
theorem containsForm (subject : Path) :
    BuildAlike Refused (Parser.containsForm ctx nested subject)
      (Parser.containsForm (ctx.rebind b) nested' subject) := by
  unfold Parser.containsForm
  exact (argument hn).bind fun e e' he => .pure (.contains subject he)

include hb hn in
theorem attributeForm (owner : Owner) :
    BuildAlike Refused (Parser.attributeForm ctx nested owner)
      (Parser.attributeForm (ctx.rebind b) nested' owner) := by
  unfold Parser.attributeForm
  refine .after (expect ctx .leftParen) fun _ => ?_
  refine hb.attributeNames.bind ?_
  rintro name _ rfl
  refine .after (expect ctx .rightParen) fun _ => ?_
  refine .after (expect ctx .dot) fun _ => ?_
  refine .after (identifier ctx) fun field => ?_
  split
  · exact .pure (.path _)
  · exact containsForm hn _
  · exact .fail ctx _

include hn in
theorem textForm (owner : Owner) :
    BuildAlike Refused (Parser.textForm ctx nested owner)
      (Parser.textForm (ctx.rebind b) nested' owner) := by
  intro s
  unfold Parser.textForm
  split
  · exact containsForm hn _ _
  · exact .ok _ (.path _)

include hb hn in
theorem vocabulary (head : Head) :
    BuildAlike Refused (Parser.vocabulary ctx nested head)
      (Parser.vocabulary (ctx.rebind b) nested' head) := by
  unfold Parser.vocabulary
  split
  · exact .pure (.path _)
  · exact .pure (.path _)
  · exact textForm hn .target
  · exact attributeForm hb hn .target
  · refine .after (expect ctx .dot) fun _ => ?_
    refine .after (identifier ctx) fun field => ?_
    split
    · exact attributeForm hb hn .parent
    · exact textForm hn .parent
    · split
      · exact .pure (.path _)
      · exact .fail ctx _

include hb hn in
theorem receiver (start : Nat) :
    BuildAlike Refused (Parser.receiver ctx nested start)
      (Parser.receiver (ctx.rebind b) nested' start) := by
  unfold Parser.receiver
  refine .after (expect ctx .dot) fun _ => ?_
  refine .after (identifier ctx) fun word => ?_
  split
  · exact vocabulary hb hn _
  · exact .throw _

include hb hn in
theorem application (name : String) :
    BuildAlike Refused (Parser.application ctx nested name)
      (Parser.application (ctx.rebind b) nested' name) := by
  unfold Parser.application
  split
  · refine hn.bind fun e e' he => ?_
    exact .after (expect ctx .rightParen) fun _ => .pure (.convert _ he)
  · refine .after (expect ctx .rightParen) fun _ => ?_
    rw [Context.rebind, hb.functions name]
    split
    · exact .after (invoke name _) fun v =>
        buildAlike_fields ctx b (.refl Literal.respected_sameText (.call name v))
    · exact .throw _

include hb in
theorem captured (name : String) (start : Nat) :
    BuildAlike Refused (Parser.captured ctx name start)
      (Parser.captured (ctx.rebind b) name start) := by
  unfold Parser.captured
  rw [Context.rebind]
  have hv := hb.values name
  simp only
  generalize ctx.bindings.value? name = v at hv ⊢
  generalize b.value? name = v' at hv ⊢
  cases hv with
  | none => exact .throw _
  | some hv => exact buildAlike_fields ctx b (.value rfl rfl hv)

include hb hn in
theorem named (name : String) (start : Nat) :
    BuildAlike Refused (Parser.named ctx nested name start)
      (Parser.named (ctx.rebind b) nested' name start) := by
  unfold Parser.named
  rw [Context.rebind]
  split
  · exact receiver hb hn start
  split
  · exact .pure (.refl Literal.respected_sameText _)
  split
  · exact .pure (.refl Literal.respected_sameText _)
  split
  · exact vocabulary hb hn _
  · refine .after (eat .leftParen) fun a => ?_
    cases a with
    | true => exact application hb hn name
    | false => exact captured hb name start

include hb hn in
theorem operand :
    BuildAlike Refused (Parser.operand ctx nested) (Parser.operand (ctx.rebind b) nested') := by
  unfold Parser.operand
  refine .after (offset ctx) fun start => ?_
  refine .after advance fun token => ?_
  split
  · refine hn.bind fun e e' he => ?_
    exact .after (expect ctx .rightParen) fun _ => .pure he
  · exact .pure (.refl Literal.respected_sameText _)
  · exact .pure (.refl Literal.respected_sameText _)
  · exact named hb hn _ start
  · exact .throw _
  · exact .throw _

include hb hn in
theorem comparison :
    BuildAlike Refused (Parser.comparison ctx nested)
      (Parser.comparison (ctx.rebind b) nested') := by
  unfold Parser.comparison
  refine (operand hb hn).bind fun l l' hl => ?_
  refine .after (eat .equals) fun a => ?_
  cases a with
  | true => exact (operand hb hn).bind fun r r' hr => .pure (.eq hl hr)
  | false => exact .pure hl

end Vocabulary

include hb

theorem unary (depth : Nat) :
    BuildAlike Refused (Parser.unary ctx depth) (Parser.unary (ctx.rebind b) depth) := by
  induction depth with
  | zero => exact .fail ctx .nestedTooDeeply
  | succ depth ih =>
    unfold Parser.unary
    refine .after (eat .bang) fun a => ?_
    cases a with
    | true => exact ih.bind fun e e' he => .pure (.not he)
    | false => exact comparison hb (buildAlike_disjunction ih)

theorem whole : BuildAlike Refused (Parser.whole ctx) (Parser.whole (ctx.rebind b)) := by
  unfold Parser.whole
  refine (buildAlike_disjunction (unary hb maxDepth)).bind fun e e' he => ?_
  refine .after peek fun next => ?_
  cases next with
  | some token => exact .fail ctx _
  | none => exact .pure he

end Rebinds

/-! ## A variable and its erasure -/

/-- The error for a variable that names an attribute and is not bound to a text. -/
def AttributeRefused (n : String) (e : Error) : Prop :=
  ∃ position, e = .parse (.attributeNameNotString n) position

variable (b : Bindings) (n : String) (v : Json.Value)

/-- Only a text can name an attribute, and a text is its own erasure. -/
theorem attributeName_erase (parameter : Option String) (finish : Nat) :
    InStep (AttributeRefused n) Eq (attributeName ⟨b.bind n v.erase, parameter, finish⟩)
      (attributeName ⟨b.bind n v, parameter, finish⟩) := by
  unfold attributeName
  refine .after advance fun token => ?_
  split
  · exact .pure rfl
  · rename_i name
    simp only [Bindings.value?_bind]
    by_cases hname : name = n
    · subst hname
      simp only [if_pos]
      cases v with
      | string s => exact .same _
      | bool x => exact fun s => .refused ⟨_, rfl⟩ _ _
      | number x => exact fun s => .refused ⟨_, rfl⟩ _ _
      | null => exact .same _
      | array items => exact .same _
      | object fields => exact .same _
    · simp only [if_neg hname]
      exact .same _
  · exact .same _

theorem rebinds_erase (parameter : Option String) (finish : Nat) :
    Rebinds (AttributeRefused n) ⟨b.bind n v.erase, parameter, finish⟩ (b.bind n v) where
  values x := by
    simp only [Bindings.value?_bind]
    split
    · exact .some v.erase_alike
    · cases b.value? x with
      | none => exact .none
      | some w => exact .some (.refl Literal.respected_sameText w)
  functions f := rfl
  attributeNames := attributeName_erase b n v parameter finish

theorem parseLexemes_erase (finish : Nat) (lexemes : List Lexeme) :
    Agree (Expr.Alike Literal.SameText) (parseLexemes (b.bind n v.erase) finish lexemes).result
      (parseLexemes (b.bind n v) finish lexemes).result ∨
    ∃ e, AttributeRefused n e ∧ (parseLexemes (b.bind n v) finish lexemes).result = .error e := by
  unfold parseLexemes
  split
  · exact .inl (.error _)
  · obtain ⟨parameter, rest⟩ := header lexemes
    have hw := (rebinds_erase b n v parameter finish).whole ⟨rest, []⟩
    simp only [Context.rebind] at hw
    simp only
    generalize whole ⟨b.bind n v.erase, parameter, finish⟩ ⟨rest, []⟩ = o at hw ⊢
    generalize whole ⟨b.bind n v, parameter, finish⟩ ⟨rest, []⟩ = o' at hw ⊢
    cases hw with
    | ok s h => exact .inl (.ok h)
    | failed e calls => exact .inl (.error e)
    | refused h calls o => exact .inr ⟨_, h, rfl⟩

theorem parseChars_erase (cs : List Char) :
    Agree (Expr.Alike Literal.SameText) (parseChars (b.bind n v.erase) cs).result
      (parseChars (b.bind n v) cs).result ∨
    ∃ e, AttributeRefused n e ∧ (parseChars (b.bind n v) cs).result = .error e := by
  unfold parseChars
  split
  · exact parseLexemes_erase b n v _ _
  · exact .inl (.error _)

end Parser

/-! ## Location paths -/

/-- What is read from the queries that alike walks build is the same, and so is how they fail. -/
theorem Walk.Alike.map_built {α : Type} {w w' : Walk} (h : w.Alike w') (f : Query → α) :
    (w.built.map f).mapError Error.untold = (w'.built.map f).mapError Error.untold := by
  have hcomm : ∀ (x : Except Error Unit) (g : Unit → α),
      (x.map g).mapError Error.untold = (x.mapError Error.untold).map g := by
    intro x g
    cases x <;> rfl
  have hbuilt : ∀ w : Walk, w.built.map f = w.result.map fun _ => f w.query := by
    intro w
    unfold built
    cases w.result <;> rfl
  rw [hbuilt, hbuilt, hcomm, hcomm, h.query, h.result]

namespace Expr

theorem Alike.xpath {e e' : Expr} (h : e.Alike Literal.SameText e') (strict : Bool) :
    (e.xpath strict).mapError Error.untold = (e'.xpath strict).mapError Error.untold :=
  (h.walk strict .empty).map_built Query.xpath

/-- Kinds do not matter to a walk: a tree and the tree in which every literal and every scalar of
the caller is a text are walked alike. Nor do they matter to a predicate text with a variable: bound
to a scalar or to the text of that scalar, it gives the same location path or fails alike, unless
the text takes the variable for the name of an attribute, where a scalar that is no text is
refused. -/
theorem walk_erase_and_xpathOfText_erase :
    (∀ (strict : Bool) (e : Expr) (q : Query), (e.erase.walk strict q).Alike (e.walk strict q)) ∧
    ∀ (strict : Bool) (source : String) (b : Bindings) (n : String) (v : Json.Value),
      (xpathOfText strict source (b.bind n v.erase)).mapError Error.untold =
        (xpathOfText strict source (b.bind n v)).mapError Error.untold ∨
      ∃ position, xpathOfText strict source (b.bind n v) =
        .error (.parse (.attributeNameNotString n) position) := by
  constructor
  · intro strict e q
    exact e.erase_alike.walk strict q
  · intro strict source b n v
    unfold xpathOfText Expr.parse
    rcases Parser.parseChars_erase b n v source.toList with h | ⟨e, ⟨position, rfl⟩, h⟩
    · left
      generalize (Parser.parseChars (b.bind n v.erase) source.toList).result = x at h ⊢
      generalize (Parser.parseChars (b.bind n v) source.toList).result = x' at h ⊢
      cases h with
      | ok h => exact h.xpath strict
      | error e => rfl
    · right
      exact ⟨position, by rw [h]; rfl⟩

/-- A number cannot name an attribute, the text of the number can. -/
theorem xpathOfText_erase_attributeName :
    (Json.Value.int 5).erase = .string "5" ∧
    (xpathOfText false "Attribute(n).Text == \"x\"" (Bindings.empty.bind "n" (.int 5))).toOption =
      none ∧
    (xpathOfText false "Attribute(n).Text == \"x\""
      (Bindings.empty.bind "n" (.string "5"))).toOption = some "//*[@5='x']" :=
  ⟨rfl, by decide +kernel, by decide +kernel⟩

end Expr

end ElementQuery
