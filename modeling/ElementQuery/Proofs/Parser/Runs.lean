/-
Two runs of the parser side by side. They read the same tokens, which may stand at other places in
their texts, under bindings that agree on every name that the tokens can look up. Then both take
the same tokens, make the same calls and return the same tree, or both fail with the same error at
corresponding places.

A name is looked up in three places: as an attribute name right after `Attribute` and an opening
parenthesis, whatever the name is; as a function before an opening parenthesis; and as a variable
where no opening parenthesis follows. In the last two the words of the language come first. Which
of them it is depends on the tokens just taken, so parsers are compared from states whose tokens
left, together with those just taken, fulfil a condition.
-/
import ElementQuery.Proofs.Parser.Calls

namespace ElementQuery

open Grammar (Free Connective)

/-! ## Names that tokens can look up -/

/-- A name stands in tokens with no opening parenthesis after it. -/
def Token.Bare (x : String) (ts : List Token) : Prop :=
  ∃ before after, ts = before ++ .ident x :: after ∧ ¬ Token.Opens after

/-- Two bindings agree on every name that tokens can look up: on the values of names that name an
attribute, on the values of free names that stand bare, and on the functions of free names with an
opening parenthesis after them, conversions aside. -/
structure Bindings.AgreeOn (b b' : Bindings) (parameter : Option String) (ts : List Token) :
    Prop where
  attributeNames : ∀ x, [.ident "Attribute", .leftParen, .ident x] <:+: ts →
    b.value? x = b'.value? x
  values : ∀ x, Token.Bare x ts → Free parameter x → b.value? x = b'.value? x
  functions : ∀ x, [.ident x, .leftParen] <:+: ts → Free parameter x →
    (∀ k : LiteralKind, x ≠ k.word) → b.function? x = b'.function? x

theorem Bindings.AgreeOn.refl (b : Bindings) (parameter : Option String) (ts : List Token) :
    b.AgreeOn b parameter ts :=
  ⟨fun _ _ => rfl, fun _ _ _ => rfl, fun _ _ _ _ => rfl⟩

theorem Bindings.AgreeOn.suffix {b b' : Bindings} {parameter : Option String} {ts us : List Token}
    (h : b.AgreeOn b' parameter ts) (hs : us <:+ ts) : b.AgreeOn b' parameter us where
  attributeNames x hx := h.attributeNames x (hx.trans hs.isInfix)
  values := by
    rintro x ⟨before, after, rfl, hopen⟩ hfree
    obtain ⟨front, rfl⟩ := hs
    refine h.values x ⟨front ++ before, after, ?_, hopen⟩ hfree
    rw [List.append_assoc]
  functions x hx := h.functions x (hx.trans hs.isInfix)

theorem Bindings.AgreeOn.tail {b b' : Bindings} {parameter : Option String} {t : Token}
    {ts : List Token} (h : b.AgreeOn b' parameter (t :: ts)) : b.AgreeOn b' parameter ts :=
  h.suffix (List.suffix_cons t ts)

/-! ## The same at other places -/

/-- The same error at corresponding places. -/
inductive Error.Moved (P : Nat → Nat → Prop) : Error → Error → Prop
  | parse (fault : Fault) {o o' : Nat} (h : P o o') : Moved P (.parse fault o) (.parse fault o')
  | operand (name : String) {o o' : Nat} (h : P o o') :
      Moved P (.unbound (.operand name o)) (.unbound (.operand name o'))
  | function (name : String) : Moved P (.unbound (.function name)) (.unbound (.function name))
  | attributeName (name : String) :
      Moved P (.unbound (.attributeName name)) (.unbound (.attributeName name))

namespace Parser

variable (P : Nat → Nat → Prop)

/-- The same tokens left, at corresponding places, after the same calls. -/
structure State.Moved (s s' : State) : Prop where
  rest : List.Forall₂ (fun l l' : Lexeme => l'.token = l.token ∧ P l.offset l'.offset) s.rest s'.rest
  calls : s'.calls = s.calls

/-- The same parameter in texts that end at corresponding places. -/
structure Context.Moved (ctx ctx' : Context) : Prop where
  parameter : ctx'.parameter = ctx.parameter
  finish : P ctx.finish ctx'.finish

/-- The same outcome at corresponding places, and what is left is the end of the given tokens. -/
inductive Outcome.Moved {α : Type} (ts : List Token) : Outcome α → Outcome α → Prop
  | ok (a : α) {t t' : State} (h : t.Moved P t') (hleft : t.tokens <:+ ts) :
      Moved ts (.ok a t) (.ok a t')
  | failed {e e' : Error} (calls : List String) (h : e.Moved P e') :
      Moved ts (.failed e calls) (.failed e' calls)

/-- Two parsers that have the same outcome from states whose tokens fulfil a condition. -/
def Together {α : Type} (A : List Token → Prop) (p p' : Parser α) : Prop :=
  ∀ s s', s.Moved P s' → A s.tokens → Outcome.Moved P s.tokens (p s) (p' s')

variable {P} {ctx ctx' : Context}

/-! ## States -/

namespace State.Moved

theorem tokens {s s' : State} (h : s.Moved P s') : s'.tokens = s.tokens := by
  obtain ⟨rest, calls⟩ := s
  obtain ⟨rest', calls'⟩ := s'
  obtain ⟨hrest, -⟩ := h
  simp only at hrest
  show rest'.map Lexeme.token = rest.map Lexeme.token
  induction hrest with
  | nil => rfl
  | cons hl _ ih => rw [List.map_cons, List.map_cons, hl.1, ih]

/-- The next lexemes, or the ends of the texts, stand at corresponding places. -/
theorem place {s s' : State} (h : s.Moved P s') (hc : ctx.Moved P ctx') :
    P ((s.rest.head?.map (·.offset)).getD ctx.finish)
      ((s'.rest.head?.map (·.offset)).getD ctx'.finish) := by
  obtain ⟨rest, calls⟩ := s
  obtain ⟨rest', calls'⟩ := s'
  obtain ⟨hrest, -⟩ := h
  cases hrest with
  | nil => exact hc.finish
  | cons hl _ => exact hl.2

/-- Where the first run has a next token, so has the second, and the rest corresponds. -/
theorem tail {l : Lexeme} {rest : List Lexeme} {calls : List String} {s' : State}
    (h : State.Moved P ⟨l :: rest, calls⟩ s') :
    ∃ o' rest', s' = ⟨⟨l.token, o'⟩ :: rest', calls⟩ ∧
      State.Moved P ⟨rest, calls⟩ ⟨rest', calls⟩ := by
  obtain ⟨rest', calls'⟩ := s'
  obtain ⟨hrest, rfl⟩ := h
  cases hrest with
  | @cons _ l' _ rest' hl hrest =>
    obtain ⟨token, o'⟩ := l'
    obtain ⟨rfl, -⟩ := hl
    exact ⟨o', rest', rfl, hrest, rfl⟩

theorem eq_nil {calls : List String} {s' : State} (h : State.Moved P ⟨[], calls⟩ s') :
    s' = ⟨[], calls⟩ := by
  obtain ⟨rest', calls'⟩ := s'
  obtain ⟨hrest, rfl⟩ := h
  cases hrest
  rfl

end State.Moved

theorem Outcome.Moved.of_suffix {α : Type} {ts us : List Token} {o o' : Outcome α}
    (h : Outcome.Moved P us o o') (hs : us <:+ ts) : Outcome.Moved P ts o o' := by
  cases h with
  | ok a ht hleft => exact .ok a ht (hleft.trans hs)
  | failed calls he => exact .failed calls he

/-! ## Sequences -/

namespace Together

variable {α β : Type} {A B : List Token → Prop} {p p' : Parser α} {f f' : α → Parser β}

theorem mono (h : Together P B p p') (hab : ∀ ts, A ts → B ts) : Together P A p p' :=
  fun s s' hs ha => h s s' hs (hab _ ha)

/-- What the condition on the tokens says of anything else may be assumed. -/
theorem assume {φ : Prop} (hφ : ∀ ts, A ts → φ) (h : φ → Together P A p p') :
    Together P A p p' :=
  fun s s' hs ha => h (hφ _ ha) s s' hs ha

theorem pure (a : α) : Together P A (Pure.pure a) (Pure.pure a) :=
  fun _ _ hs _ => .ok a hs (List.suffix_refl _)

theorem throw {e e' : Error} (h : e.Moved P e') :
    Together P A (Parser.throw e : Parser α) (Parser.throw e') := by
  intro s s' hs _
  unfold Parser.throw
  rw [hs.calls]
  exact .failed _ h

theorem fail (hc : ctx.Moved P ctx') (fault : Fault) :
    Together P A (Parser.fail ctx fault : Parser α) (Parser.fail ctx' fault) := by
  intro s s' hs ha
  exact throw (.parse fault (hs.place hc)) s s' hs ha

/-- In a sequence the second part starts from an end of the tokens. -/
theorem bind (hp : Together P A p p') (hab : ∀ ts us, us <:+ ts → A ts → B us)
    (hf : ∀ a, Together P B (f a) (f' a)) : Together P A (p >>= f) (p' >>= f') := by
  intro s s' hs ha
  have hout := hp s s' hs ha
  rw [bind_apply, bind_apply]
  generalize p s = o at hout ⊢
  generalize p' s' = o' at hout ⊢
  cases hout with
  | ok a ht hleft => exact (hf a _ _ ht (hab _ _ hleft ha)).of_suffix hleft
  | failed calls he => exact .failed calls he

/-- A function of the caller returns the same to both runs, since they have made the same calls. -/
theorem invoke (name : String) (g : Function) :
    Together P A (Parser.invoke name g) (Parser.invoke name g) := by
  intro s s' hs _
  unfold Parser.invoke
  rw [hs.calls]
  exact .ok _ ⟨hs.rest, rfl⟩ (List.suffix_refl _)

theorem peek {f f' : Option Token → Parser β} (hf : ∀ next, Together P A (f next) (f' next)) :
    Together P A (Parser.peek >>= f) (Parser.peek >>= f') := by
  intro s s' hs ha
  have hnext : s'.rest.head?.map (·.token) = s.rest.head?.map (·.token) := by
    rw [← List.head?_map, ← List.head?_map]
    exact congrArg List.head? hs.tokens
  rw [bind_of_ok (p := Parser.peek) rfl, bind_of_ok (p := Parser.peek) rfl, hnext]
  exact hf _ s s' hs ha

/-- Places may differ, but they correspond. -/
theorem offset (hc : ctx.Moved P ctx') {f f' : Nat → Parser β}
    (hf : ∀ o o', P o o' → Together P A (f o) (f' o')) :
    Together P A (Parser.offset ctx >>= f) (Parser.offset ctx' >>= f') := by
  intro s s' hs ha
  rw [bind_of_ok (p := Parser.offset ctx) rfl, bind_of_ok (p := Parser.offset ctx') rfl]
  exact hf _ _ (hs.place hc) s s' hs ha

/-- Once a token is taken, the condition is on it and the tokens left. -/
theorem advance {f f' : Option Token → Parser β}
    (hsome : ∀ t, Together P (fun ts => A (t :: ts)) (f (some t)) (f' (some t)))
    (hnone : Together P A (f none) (f' none)) :
    Together P A (Parser.advance >>= f) (Parser.advance >>= f') := by
  rintro ⟨rest, calls⟩ s' hs ha
  rcases rest with _ | ⟨l, rest⟩
  · obtain rfl := hs.eq_nil
    exact hnone _ _ hs ha
  · obtain ⟨o', rest', rfl, ht⟩ := hs.tail
    exact (hsome l.token _ _ ht ha).of_suffix (List.suffix_cons _ _)

theorem eat {token : Token} {f f' : Bool → Parser β}
    (htrue : Together P (fun ts => A (token :: ts)) (f true) (f' true))
    (hfalse : Together P (fun ts => A ts ∧ ts.head? ≠ some token) (f false) (f' false)) :
    Together P A (Parser.eat token >>= f) (Parser.eat token >>= f') := by
  rintro ⟨rest, calls⟩ s' hs ha
  rcases rest with _ | ⟨l, rest⟩
  · obtain rfl := hs.eq_nil
    exact hfalse _ _ hs ⟨ha, by simp [State.tokens]⟩
  · obtain ⟨o', rest', rfl, ht⟩ := hs.tail
    by_cases htoken : l.token = token
    · subst htoken
      have heat (o : Nat) (rest : List Lexeme) :
          Parser.eat l.token ⟨⟨l.token, o⟩ :: rest, calls⟩ = .ok true ⟨rest, calls⟩ := by
        simp [Parser.eat]
      rw [bind_of_ok (heat l.offset rest), bind_of_ok (heat o' rest')]
      exact (htrue _ _ ht ha).of_suffix (List.suffix_cons _ _)
    · have heat (o : Nat) (rest : List Lexeme) :
          Parser.eat token ⟨⟨l.token, o⟩ :: rest, calls⟩ =
            .ok false ⟨⟨l.token, o⟩ :: rest, calls⟩ := by
        simp [Parser.eat, htoken]
      rw [bind_of_ok (heat l.offset rest), bind_of_ok (heat o' rest')]
      exact hfalse _ _ hs ⟨ha, by simpa [State.tokens] using htoken⟩

theorem expect (hc : ctx.Moved P ctx') {token : Token} {p p' : Parser β}
    (h : Together P (fun ts => A (token :: ts)) p p') :
    Together P A (Parser.expect ctx token >>= fun _ => p)
      (Parser.expect ctx' token >>= fun _ => p') := by
  have hexpect (ctx : Context) (p : Parser β) : (Parser.expect ctx token >>= fun _ => p) =
      (Parser.eat token >>= fun eaten => if eaten then p
        else Parser.peek >>= fun next => Parser.fail ctx (.expected token next)) := by
    funext s
    unfold Parser.expect
    simp only [bind_apply]
    rcases eat_cases token s with ⟨rest, -, heat⟩ | ⟨-, heat⟩
    · rw [heat]
      rfl
    · rw [heat]
      rfl
  rw [hexpect, hexpect]
  exact eat h (peek fun next => fail hc _)

theorem identifier (hc : ctx.Moved P ctx') {f f' : String → Parser β}
    (hf : ∀ x, Together P (fun ts => A (.ident x :: ts)) (f x) (f' x)) :
    Together P A (Parser.identifier ctx >>= f) (Parser.identifier ctx' >>= f') := by
  rintro ⟨rest, calls⟩ s' hs ha
  rcases rest with _ | ⟨⟨token, o⟩, rest⟩
  · obtain rfl := hs.eq_nil
    exact .failed calls (.parse _ hc.finish)
  · have hplace := hs.place hc
    obtain ⟨o', rest', rfl, ht⟩ := hs.tail
    cases token with
    | ident x => exact (hf x _ _ ht ha).of_suffix (List.suffix_cons _ _)
    | _ => exact .failed calls (.parse _ hplace)

end Together

/-! ## Fields and chains -/

section Trees

variable (hc : ctx.Moved P ctx')

include hc

theorem moved_fieldsFrom : ∀ (rest rest' : List Lexeme) (calls : List String) (object : Expr),
    State.Moved P ⟨rest, calls⟩ ⟨rest', calls⟩ →
    Outcome.Moved P (rest.map Lexeme.token) (fieldsFrom ctx object rest calls)
      (fieldsFrom ctx' object rest' calls)
  | [], rest', calls, object, hs => by
    cases hs.eq_nil
    exact .ok _ hs (List.suffix_refl _)
  | [⟨token, o⟩], rest', calls, object, hs => by
    obtain ⟨o', left, heq, ht⟩ := hs.tail
    cases heq
    cases ht.eq_nil
    cases token with
    | dot => exact .failed calls (.parse _ (ht.place hc))
    | _ => exact .ok _ hs (List.suffix_refl _)
  | ⟨token, o⟩ :: ⟨token₂, o₂⟩ :: rest, rest', calls, object, hs => by
    obtain ⟨o', left, heq, ht⟩ := hs.tail
    cases heq
    have hplace := ht.place hc
    obtain ⟨o₂', left', heq, ht'⟩ := ht.tail
    cases heq
    cases token with
    | dot =>
      cases token₂ with
      | ident field =>
        have hrest := moved_fieldsFrom rest left' calls (.member object field) ht'
        exact hrest.of_suffix ((List.suffix_cons _ _).trans (List.suffix_cons _ _))
      | _ => exact .failed calls (.parse _ hplace)
    | _ => exact .ok _ hs (List.suffix_refl _)

theorem together_fields {A : List Token → Prop} (object : Expr) :
    Together P A (fields ctx object) (fields ctx' object) := by
  rintro ⟨rest, calls⟩ ⟨rest', calls'⟩ hs _
  obtain rfl : calls' = calls := hs.calls
  exact moved_fieldsFrom hc rest rest' calls' object hs

end Trees

section Chains

variable {A : List Token → Prop} (hA : ∀ ts us, us <:+ ts → A ts → A us) (c : Connective)
  {item item' : Parser Expr} (hi : Together P A item item')

include hA hi

theorem together_links (bound : Nat) (left : Expr) :
    Together P A (links c.token c.join item bound left) (links c.token c.join item' bound left) := by
  induction bound generalizing left with
  | zero => exact Together.pure left
  | succ bound ih =>
    rintro ⟨rest, calls⟩ s' hs ha
    rcases rest with _ | ⟨l, rest⟩
    · obtain rfl := hs.eq_nil
      exact .ok left hs (List.suffix_refl _)
    · obtain ⟨o', rest', rfl, ht⟩ := hs.tail
      rw [links_cons, links_cons]
      have hsuffix := List.suffix_cons l.token (rest.map Lexeme.token)
      split
      · have hlink := hi.bind hA (fun right => ih (c.join left right))
        exact (hlink _ _ ht (hA _ _ hsuffix ha)).of_suffix hsuffix
      · exact .ok left hs (List.suffix_refl _)

theorem together_chain :
    Together P A (chain c.token c.join item) (chain c.token c.join item') := by
  unfold chain
  refine hi.bind hA fun first s s' hs ha => ?_
  have hlength : s'.rest.length = s.rest.length := hs.rest.length_eq.symm
  rw [hlength]
  exact together_links hA c hi _ first s s' hs ha

theorem together_disjunction :
    Together P A (disjunction item) (disjunction item') :=
  together_chain hA .or (together_chain hA .and hi)

end Chains

/-! ## The vocabulary -/

/-- The bindings of two contexts agree on every name that tokens can look up. -/
def Agreed (ctx ctx' : Context) (ts : List Token) : Prop :=
  ctx.bindings.AgreeOn ctx'.bindings ctx.parameter ts

theorem Agreed.suffix {ts us : List Token} (hs : us <:+ ts) (h : Agreed ctx ctx' ts) :
    Agreed ctx ctx' us :=
  Bindings.AgreeOn.suffix h hs

theorem Agreed.tail {t : Token} {ts : List Token} (h : Agreed ctx ctx' (t :: ts)) :
    Agreed ctx ctx' ts :=
  h.suffix (List.suffix_cons t ts)

section Vocabulary

variable (hc : ctx.Moved P ctx') {nested nested' : Parser Expr}
  (hn : Together P (Agreed ctx ctx') nested nested')

include hc

/-- The name of an attribute is looked up right after its head and the parenthesis. -/
theorem together_attributeName :
    Together P (fun ts => Agreed ctx ctx' (.ident "Attribute" :: .leftParen :: ts))
      (attributeName ctx) (attributeName ctx') := by
  unfold attributeName
  refine .advance (fun token => ?_) (.fail hc _)
  cases token with
  | str name => exact .pure name
  | ident x =>
    refine .assume (fun ts ha => ha.attributeNames x ⟨[], ts, rfl⟩) fun hvalue => ?_
    dsimp only
    rw [← hvalue]
    cases ctx.bindings.value? x with
    | none => exact .throw (.attributeName x)
    | some v =>
      cases v with
      | string name => exact .pure name
      | _ => exact .fail hc _
  | _ => exact .fail hc _

include hn

theorem together_argument :
    Together P (Agreed ctx ctx') (argument ctx nested) (argument ctx' nested') := by
  unfold argument
  refine .expect hc (.mono ?_ fun ts h => h.tail)
  refine hn.bind (fun _ _ => Agreed.suffix) fun e => .peek fun next => ?_
  split
  · exact .fail hc _
  · exact .expect hc (.pure e)

theorem together_containsForm (subject : Path) :
    Together P (Agreed ctx ctx') (containsForm ctx nested subject)
      (containsForm ctx' nested' subject) := by
  unfold containsForm
  exact (together_argument hc hn).bind (fun _ _ => Agreed.suffix) fun e => .pure _

theorem together_attributeForm (owner : Owner) :
    Together P (fun ts => Agreed ctx ctx' (.ident "Attribute" :: ts))
      (attributeForm ctx nested owner) (attributeForm ctx' nested' owner) := by
  unfold attributeForm
  refine .expect hc ?_
  refine (together_attributeName hc).bind (B := Agreed ctx ctx') ?_ fun name => ?_
  · exact fun ts us hs h => h.tail.tail.suffix hs
  refine .expect hc (.expect hc (.identifier hc fun field => ?_))
  split
  · exact .pure _
  · exact (together_containsForm hc hn _).mono fun ts h => h.tail.tail.tail
  · exact .fail hc _

omit hc hn in
/-- Whether the text of an element is tested for containment is told by the next two tokens. -/
theorem textForm_eq (ctx : Context) (nested : Parser Expr) (owner : Owner) (s : State) :
    textForm ctx nested owner s =
      if [.dot, .ident "Contains"] <+: s.tokens then
        containsForm ctx nested (.member (.text owner)) ⟨s.rest.drop 2, s.calls⟩
      else .ok (.path (.member (.text owner))) s := by
  obtain ⟨rest, calls⟩ := s
  unfold textForm
  split
  · rename_i o o' left hrest
    obtain rfl : rest = _ := hrest
    rw [if_pos ⟨left.map Lexeme.token, rfl⟩]
    rfl
  · rename_i hne
    rw [if_neg]
    rintro ⟨ts, hts⟩
    obtain ⟨⟨_, o⟩, left, rfl, rfl, hleft⟩ := List.map_eq_cons_iff.1 hts.symm
    obtain ⟨⟨_, o'⟩, left', rfl, rfl, -⟩ := List.map_eq_cons_iff.1 hleft
    exact hne _ _ _ rfl

theorem together_textForm (owner : Owner) :
    Together P (Agreed ctx ctx') (textForm ctx nested owner) (textForm ctx' nested' owner) := by
  intro s s' hs ha
  rw [textForm_eq, textForm_eq, hs.tokens]
  split
  · have hdrop : State.Moved P ⟨s.rest.drop 2, s.calls⟩ ⟨s'.rest.drop 2, s'.calls⟩ :=
      ⟨List.forall₂_drop 2 hs.rest, hs.calls⟩
    have hsuffix : (s.rest.drop 2).map Lexeme.token <:+ s.tokens := (List.drop_suffix 2 _).map _
    exact (together_containsForm hc hn _ _ _ hdrop (ha.suffix hsuffix)).of_suffix hsuffix
  · exact .ok _ hs (List.suffix_refl _)

theorem together_vocabulary (head : Head) :
    Together P (fun ts => Agreed ctx ctx' (.ident head.word :: ts)) (vocabulary ctx nested head)
      (vocabulary ctx' nested' head) := by
  unfold vocabulary
  split
  · exact .pure _
  · exact .pure _
  · exact (together_textForm hc hn .target).mono fun ts h => h.tail
  · exact together_attributeForm hc hn .target
  · refine .expect hc (.identifier hc fun field => ?_)
    split
    · exact (together_attributeForm hc hn .parent).mono fun ts h => h.tail.tail
    · exact (together_textForm hc hn .parent).mono fun ts h => h.tail.tail.tail
    · split
      · exact .pure _
      · exact .fail hc _

/-! ## Operands -/

theorem together_receiver {start start' : Nat} (hstart : P start start') :
    Together P (Agreed ctx ctx') (receiver ctx nested start) (receiver ctx' nested' start') := by
  unfold receiver
  refine .expect hc (.identifier hc fun word => ?_)
  cases hword : Head.ofWord? word with
  | some head =>
    rw [Head.ofWord?_eq_some_iff.1 hword]
    exact (together_vocabulary hc hn head).mono fun ts h => h.tail
  | none => exact .throw (.parse _ hstart)

theorem together_application {name : String} (hfree : Free ctx.parameter name) :
    Together P (fun ts => Agreed ctx ctx' (.ident name :: .leftParen :: ts))
      (application ctx nested name) (application ctx' nested' name) := by
  unfold application
  cases hkind : LiteralKind.ofWord? name with
  | some kind =>
    refine .mono ?_ fun ts h => h.tail.tail
    exact hn.bind (fun _ _ => Agreed.suffix) fun e => .expect hc (.pure _)
  | none =>
    have hword := LiteralKind.ofWord?_eq_none_iff.1 hkind
    refine .expect hc ?_
    refine .assume (fun ts ha => ha.functions name ⟨[], .rightParen :: ts, rfl⟩ hfree hword)
      fun hfunction => ?_
    rw [← hfunction]
    cases ctx.bindings.function? name with
    | none => exact .throw (.function name)
    | some f => exact .bind (.invoke name f) (fun _ _ _ _ => trivial) fun v => together_fields hc _

omit hn in
theorem together_captured {name : String} (hfree : Free ctx.parameter name) {start start' : Nat}
    (hstart : P start start') :
    Together P (fun ts => Agreed ctx ctx' (.ident name :: ts) ∧ ts.head? ≠ some .leftParen)
      (captured ctx name start) (captured ctx' name start') := by
  refine .assume (fun ts ha => ha.1.values name ⟨[], ts, rfl, ha.2⟩ hfree) fun hvalue => ?_
  unfold captured
  rw [← hvalue]
  cases ctx.bindings.value? name with
  | none => exact .throw (.operand name hstart)
  | some v => exact together_fields hc _

theorem together_named (name : String) {start start' : Nat} (hstart : P start start') :
    Together P (fun ts => Agreed ctx ctx' (.ident name :: ts)) (named ctx nested name start)
      (named ctx' nested' name start') := by
  unfold named
  rw [hc.parameter]
  split
  · exact (together_receiver hc hn hstart).mono fun ts h => h.tail
  rename_i hp
  split
  · exact .pure _
  rename_i ht
  split
  · exact .pure _
  rename_i hf
  cases hword : Head.ofWord? name with
  | some head =>
    rw [Head.ofWord?_eq_some_iff.1 hword]
    exact together_vocabulary hc hn head
  | none =>
    have hfree : Free ctx.parameter name := ⟨hp, ht, hf, Head.ofWord?_eq_none_iff.1 hword⟩
    exact .eat (together_application hc hn hfree) (together_captured hc hfree hstart)

theorem together_operand :
    Together P (Agreed ctx ctx') (operand ctx nested) (operand ctx' nested') := by
  unfold operand
  refine .offset hc fun start start' hstart => ?_
  refine .advance (fun token => ?_) (.throw (.parse _ hstart))
  cases token with
  | leftParen =>
    refine .mono ?_ fun ts h => h.tail
    exact hn.bind (fun _ _ => Agreed.suffix) fun e => .expect hc (.pure e)
  | str s => exact .pure _
  | int i => exact .pure _
  | ident name => exact together_named hc hn name hstart
  | _ => exact .throw (.parse _ hstart)

theorem together_comparison :
    Together P (Agreed ctx ctx') (comparison ctx nested) (comparison ctx' nested') := by
  unfold comparison
  refine (together_operand hc hn).bind (fun _ _ => Agreed.suffix) fun left => ?_
  refine .eat ?_ (.pure left)
  refine .mono ?_ fun ts h => h.tail
  exact (together_operand hc hn).bind (fun _ _ => Agreed.suffix) fun right => .pure _

end Vocabulary

/-! ## Whole predicates -/

section Whole

variable (hc : ctx.Moved P ctx')

include hc

theorem together_unary (depth : Nat) :
    Together P (Agreed ctx ctx') (unary ctx depth) (unary ctx' depth) := by
  -- the induction is on the levels of nesting left, where the parsers are tied together
  induction depth with
  | zero => exact .fail hc _
  | succ depth ih =>
    unfold unary
    refine .eat ?_ ?_
    · refine .mono ?_ fun ts h => h.tail
      exact ih.bind (fun _ _ => Agreed.suffix) fun e => .pure _
    · refine .mono ?_ fun ts h => h.1
      exact together_comparison hc (together_disjunction (fun _ _ => Agreed.suffix) ih)

/-- The parser of whole predicates has the same outcome from tokens on whose names the bindings
agree. -/
theorem together_whole : Together P (Agreed ctx ctx') (whole ctx) (whole ctx') := by
  unfold whole
  have hbody := together_disjunction (fun _ _ => Agreed.suffix) (together_unary hc maxDepth)
  refine hbody.bind (fun _ _ => Agreed.suffix) fun e => .peek fun next => ?_
  cases next with
  | some token => exact .fail hc _
  | none => exact .pure e

end Whole

/-! ## Whole texts -/

/-- The same tree, or the same error at corresponding places, after the same calls. -/
inductive Parsed.Moved (P : Nat → Nat → Prop) : Parsed → Parsed → Prop
  | ok (e : Expr) (calls : List String) : Moved P ⟨.ok e, calls⟩ ⟨.ok e, calls⟩
  | error {e e' : Error} (calls : List String) (h : e.Moved P e') :
      Moved P ⟨.error e, calls⟩ ⟨.error e', calls⟩

section Lexemes

variable {lexemes lexemes' : List Lexeme}
  (h : List.Forall₂ (fun l l' : Lexeme => l'.token = l.token ∧ P l.offset l'.offset)
    lexemes lexemes')

include h

/-- Lexemes at corresponding places have the same parameter, and then lexemes at such places. -/
theorem header_moved :
    (header lexemes).1 = (header lexemes').1 ∧
      List.Forall₂ (fun l l' : Lexeme => l'.token = l.token ∧ P l.offset l'.offset)
        (header lexemes).2 (header lexemes').2 := by
  unfold header
  split
  · rename_i name o o' rest
    obtain ⟨⟨_, p⟩, _, ⟨rfl, -⟩, hmore, rfl⟩ := List.forall₂_cons_left_iff.1 h
    obtain ⟨⟨_, p'⟩, rest', ⟨rfl, -⟩, hrest, rfl⟩ := List.forall₂_cons_left_iff.1 hmore
    exact ⟨rfl, hrest⟩
  · rename_i hno
    split
    · obtain ⟨⟨t, p⟩, _, ⟨ht, -⟩, hmore, rfl⟩ := List.forall₂_cons_right_iff.1 h
      obtain ⟨⟨t', p'⟩, rest, ⟨ht', -⟩, -, rfl⟩ := List.forall₂_cons_right_iff.1 hmore
      cases ht
      cases ht'
      exact absurd rfl (hno _ _ _ _)
    · exact ⟨rfl, h⟩

/-- Lexemes at corresponding places, up to ends that correspond, are parsed alike under bindings
that agree on the names that they can look up. -/
theorem parseLexemes_moved {b b' : Bindings}
    (hagree : b.AgreeOn b' (header lexemes).1 (lexemes.map Lexeme.token)) (hne : lexemes ≠ [])
    (finish finish' : Nat) (hfinish : P finish finish') :
    Parsed.Moved P (parseLexemes b finish lexemes) (parseLexemes b' finish' lexemes') := by
  have hne' : lexemes' ≠ [] := by
    rintro rfl
    exact hne (List.forall₂_nil_right_iff.1 h)
  have hsuffix : (header lexemes).2.map Lexeme.token <:+ lexemes.map Lexeme.token := by
    rcases header_cases lexemes with ⟨p, rest, hh, htokens⟩ | ⟨hh, -⟩
    · rw [hh, htokens]
      exact (List.suffix_cons _ _).trans (List.suffix_cons _ _)
    · rw [hh]
  have hagreed := hagree.suffix hsuffix
  obtain ⟨hparameter, hrest⟩ := header_moved h
  unfold parseLexemes
  rw [if_neg (by simpa using hne), if_neg (by simpa using hne')]
  generalize header lexemes = hl at hagreed hparameter hrest
  generalize header lexemes' = hl' at hparameter hrest
  obtain ⟨parameter, rest⟩ := hl
  obtain ⟨_, rest'⟩ := hl'
  dsimp only at hagreed hparameter hrest ⊢
  subst hparameter
  have hc : Context.Moved P ⟨b, parameter, finish⟩ ⟨b', parameter, finish'⟩ := ⟨rfl, hfinish⟩
  have hw := together_whole hc ⟨rest, []⟩ ⟨rest', []⟩ ⟨hrest, rfl⟩ hagreed
  generalize whole _ _ = outcome at hw ⊢
  generalize whole _ _ = outcome' at hw ⊢
  cases hw with
  | ok e ht _ =>
    dsimp only
    rw [ht.calls]
    exact .ok e _
  | failed calls he => exact .error calls he

end Lexemes

end Parser

end ElementQuery
