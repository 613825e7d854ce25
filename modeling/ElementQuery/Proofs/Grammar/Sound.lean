/-
What the parser accepts is in the grammar: when a parser succeeds, the lexemes that it took have a
derivation whose tree is the value it returns.

A parser is sound for a language if each success takes tokens and returns a value that the language
relates. Soundness of a sequence follows from that of its parts, so every parser is shown sound by
following its text once; nesting is an induction on the levels left.
-/
import ElementQuery.Proofs.Grammar.Basic

namespace ElementQuery.Parser

/-! ## Sound parsers -/

/-- What a parser takes off the lexemes when it succeeds is related to the value it returns. -/
def Sound {α : Type} (p : Parser α) (L : List Token → α → Prop) : Prop :=
  ∀ s a s', p s = .ok a s' → ∃ used, s.rest = used ++ s'.rest ∧ L (used.map Lexeme.token) a

namespace Sound

variable {α β : Type} {L M : List Token → α → Prop}

theorem imp {p : Parser α} (hp : Sound p L) (h : ∀ ts a, L ts a → M ts a) : Sound p M := by
  intro s a s' hs
  obtain ⟨used, hu, hl⟩ := hp s a s' hs
  exact ⟨used, hu, h _ _ hl⟩

theorem pure {a : α} (h : L [] a) : Sound (Pure.pure a) L := by
  intro s a' s' hs
  cases hs
  exact ⟨[], rfl, h⟩

/-- A sequence takes what its first part takes, then what its second part takes. -/
theorem bind {p : Parser α} {f : α → Parser β} {N : List Token → β → Prop} (hp : Sound p L)
    (hf : ∀ ts a, L ts a → Sound (f a) fun us b => N (ts ++ us) b) : Sound (p >>= f) N := by
  intro s b s' hs
  obtain ⟨a, t, h1, h2⟩ := bind_eq_ok.1 hs
  obtain ⟨used, hu, hl⟩ := hp s a t h1
  obtain ⟨used', hu', hn⟩ := hf _ _ hl t b s' h2
  refine ⟨used ++ used', by rw [hu, hu', List.append_assoc], ?_⟩
  rw [List.map_append]
  exact hn

/-- A sequence whose first part takes the tokens that its value names. -/
theorem after {p : Parser α} {f : α → Parser β} {N : List Token → β → Prop} {ts : α → List Token}
    (hp : Sound p fun us a => us = ts a) (hf : ∀ a, Sound (f a) fun us b => N (ts a ++ us) b) :
    Sound (p >>= f) N := by
  refine hp.bind fun us a hu => ?_
  subst hu
  exact hf a

theorem throw {e : Error} : Sound (Parser.throw e) L := by
  intro s a s' hs
  cases hs

theorem failAt {offset : Nat} {fault : Fault} : Sound (Parser.failAt offset fault) L := throw

theorem fail {ctx : Context} {fault : Fault} : Sound (Parser.fail ctx fault) L := by
  intro s a s' hs
  cases hs

end Sound

variable {ctx : Context}

/-! ## Single tokens -/

theorem sound_offset : Sound (offset ctx) fun ts _ => ts = [] := by
  intro s a s' hs
  cases hs
  exact ⟨[], rfl, rfl⟩

theorem sound_peek : Sound peek fun ts _ => ts = [] := by
  intro s a s' hs
  cases hs
  exact ⟨[], rfl, rfl⟩

theorem sound_advance : Sound advance fun ts a => ts = a.toList := by
  rintro ⟨rest, calls⟩ a s' hs
  cases hs
  cases rest with
  | nil => exact ⟨[], rfl, rfl⟩
  | cons l rest => exact ⟨[l], rfl, rfl⟩

theorem sound_eat {t : Token} : Sound (eat t) fun ts a => ts = if a then [t] else [] := by
  rintro ⟨rest, calls⟩ a s' hs
  cases rest with
  | nil =>
    cases hs
    exact ⟨[], rfl, rfl⟩
  | cons l rest =>
    simp only [eat] at hs
    split at hs
    · rename_i h
      cases hs
      exact ⟨[l], rfl, by simp [h]⟩
    · cases hs
      exact ⟨[], rfl, rfl⟩

theorem sound_expect {t : Token} : Sound (expect ctx t) fun ts _ => ts = [t] := by
  unfold expect
  refine sound_eat.after fun a => ?_
  cases a with
  | true => exact .pure rfl
  | false => exact sound_peek.after fun _ => .fail

theorem sound_identifier : Sound (identifier ctx) fun ts x => ts = [.ident x] := by
  rintro ⟨rest, calls⟩ x s' hs
  rcases rest with _ | ⟨⟨token, o⟩, rest⟩
  · cases hs
  · cases token with
    | ident name =>
      cases hs
      exact ⟨[⟨.ident x, o⟩], rfl, rfl⟩
    | _ => cases hs

/-- Fields in a row are read one after another from the value before them. -/
theorem sound_fieldsFrom {object e : Expr} {rest : List Lexeme} {calls : List String} {s' : State}
    (hs : fieldsFrom ctx object rest calls = .ok e s') :
    ∃ used fields, rest = used ++ s'.rest ∧ used.map Lexeme.token = Grammar.fieldTokens fields ∧
      e = fields.foldl .member object := by
  fun_induction fieldsFrom ctx object rest calls with
  | case1 object o field o' rest calls ih =>
    obtain ⟨used, fields, hr, hu, he⟩ := ih hs
    refine ⟨⟨.dot, o⟩ :: ⟨.ident field, o'⟩ :: used, field :: fields, ?_, ?_, he⟩
    · rw [hr]; rfl
    · simp [Grammar.fieldTokens, hu]
  | case2 => cases hs
  | case3 =>
    cases hs
    exact ⟨[], [], rfl, rfl, rfl⟩

theorem sound_fields {object : Expr} :
    Sound (fields ctx object) fun ts e =>
      ∃ names, ts = Grammar.fieldTokens names ∧ e = names.foldl .member object := by
  intro s e s' hs
  obtain ⟨used, names, hr, hu, he⟩ := sound_fieldsFrom hs
  exact ⟨used, hr, names, hu, he⟩

/-! ## Chains -/

open Grammar

variable {b : Bindings} {parameter : Option String} {n : Nat}

theorem sound_links {c : Connective} {item : Parser Expr}
    (hi : Sound item (Derives b parameter c.item n)) (bound : Nat) (left : Expr) :
    Sound (links c.token c.join item bound left) (Derives b parameter (.links c left) n) := by
  induction bound generalizing left with
  | zero =>
    intro s e s' hs
    cases hs
    exact ⟨[], rfl, .finish⟩
  | succ bound ih =>
    rintro ⟨rest, calls⟩ e s' hs
    rcases rest with _ | ⟨l, rest⟩
    · cases hs
      exact ⟨[], rfl, .finish⟩
    · simp only [links] at hs
      -- a turn of the loop takes the operator and an item, or leaves all that is there
      split at hs
      · rename_i hl
        split at hs
        · rename_i right t hr
          obtain ⟨used, hu, hd⟩ := hi _ _ _ hr
          obtain ⟨used', hu', hd'⟩ := ih _ _ _ _ hs
          refine ⟨l :: (used ++ used'), ?_, ?_⟩
          · simp only at hu
            rw [hu, hu', List.cons_append, List.append_assoc]
          · rw [List.map_cons, List.map_append, hl]
            exact .link hd hd'
        · cases hs
      · cases hs
        exact ⟨[], rfl, .finish⟩

theorem sound_chain {c : Connective} {item : Parser Expr}
    (hi : Sound item (Derives b parameter c.item n)) :
    Sound (chain c.token c.join item) (Derives b parameter (.chain c) n) := by
  unfold chain
  refine hi.bind fun ts first hd s e s' hs => ?_
  obtain ⟨used, hu, hd'⟩ := sound_links hi _ _ s e s' hs
  exact ⟨used, hu, .chain hd hd'⟩

theorem sound_disjunction {unary : Parser Expr} (hu : Sound unary (Derives b parameter .unary n)) :
    Sound (disjunction unary) (Derives b parameter (.chain .or) n) :=
  sound_chain (c := .or) (sound_chain (c := .and) hu)

/-! ## The vocabulary -/

variable {nested : Parser Expr}

theorem sound_argument {L : List Token → Expr → Prop} (hn : Sound nested L) :
    Sound (argument ctx nested) fun ts e =>
      ∃ us, ts = .leftParen :: (us ++ [.rightParen]) ∧ L us e := by
  unfold argument
  refine sound_expect.after fun _ => ?_
  refine hn.bind fun us e he => ?_
  refine sound_peek.after fun next => ?_
  split
  · exact .fail
  · refine sound_expect.after fun _ => ?_
    exact .pure ⟨us, by simp, he⟩

theorem sound_containsForm {L : List Token → Expr → Prop} (hn : Sound nested L) {subject : Path} :
    Sound (containsForm ctx nested subject) fun ts e =>
      ∃ us a, .dot :: .ident "Contains" :: ts = containsTokens us ∧ L us a ∧
        e = .contains subject a := by
  unfold containsForm
  refine (sound_argument hn).bind fun ts a ha => ?_
  obtain ⟨us, rfl, ha⟩ := ha
  exact .pure ⟨us, a, by simp [containsTokens], ha, rfl⟩

theorem sound_attributeName :
    Sound (attributeName ctx) fun ts name => ∃ t, ts = [t] ∧ AttributeName ctx.bindings t name := by
  unfold attributeName
  refine sound_advance.after fun token => ?_
  split
  · exact .pure ⟨_, rfl, .quoted _⟩
  · split
    · rename_i hv
      exact .pure ⟨_, rfl, .bound hv⟩
    · exact .fail
    · exact .throw
  · exact .fail

theorem sound_attributeForm (hn : Sound nested (Derives ctx.bindings parameter (.chain .or) n))
    (owner : Owner) :
    Sound (attributeForm ctx nested owner) fun ts e =>
      Derives ctx.bindings parameter .vocabulary n (ownerTokens owner ++ .ident "Attribute" :: ts)
        e := by
  unfold attributeForm
  refine sound_expect.after fun _ => ?_
  refine sound_attributeName.bind fun ts name ht => ?_
  obtain ⟨t, rfl, ht⟩ := ht
  refine sound_expect.after fun _ => ?_
  refine sound_expect.after fun _ => ?_
  refine sound_identifier.after fun field => ?_
  split
  · refine .pure ?_
    have hd : Derives ctx.bindings parameter .vocabulary n
        (attributeTokens owner t ++ [.dot, .ident "Text"]) _ := .attributeText ht
    simpa [attributeTokens] using hd
  · refine (sound_containsForm hn).imp fun ts e hc => ?_
    obtain ⟨us, a, hts, ha, rfl⟩ := hc
    have hd : Derives ctx.bindings parameter .vocabulary n
        (attributeTokens owner t ++ containsTokens us) _ := .attributeContains ht ha
    rw [← hts] at hd
    simpa [attributeTokens] using hd
  · exact .fail

theorem sound_textForm (hn : Sound nested (Derives b parameter (.chain .or) n)) (owner : Owner) :
    Sound (textForm ctx nested owner) fun ts e =>
      Derives b parameter .vocabulary n (memberTokens (.text owner) ++ ts) e := by
  rintro ⟨rest, calls⟩ e s' hs
  unfold textForm at hs
  split at hs
  · rename_i o o' rest' hr
    obtain ⟨used, hu, us, a, hts, ha, rfl⟩ := sound_containsForm hn _ _ _ hs
    simp only at hr hu
    refine ⟨⟨.dot, o⟩ :: ⟨.ident "Contains", o'⟩ :: used, by rw [hr, hu]; rfl, ?_⟩
    rw [List.map_cons, List.map_cons, hts]
    exact .textContains ha
  · cases hs
    exact ⟨[], rfl, by simpa using .member (.text owner)⟩

/-- A head and a field name the member with their words. -/
theorem memberTokens_of_field? {head : Head} {field : String} {m : Member}
    (h : head.field? field = some m) : memberTokens m = [.ident head.word, .dot, .ident field] := by
  unfold Head.field? at h
  split at h
  · cases h; rfl
  · cases h; rfl
  · rename_i axis
    cases h; cases axis <;> rfl
  · rename_i axis
    cases h; cases axis <;> rfl
  · cases h

theorem sound_vocabulary (hn : Sound nested (Derives ctx.bindings parameter (.chain .or) n))
    (head : Head) :
    Sound (vocabulary ctx nested head) fun ts e =>
      Derives ctx.bindings parameter .vocabulary n (.ident head.word :: ts) e := by
  unfold vocabulary
  split
  · exact .pure (.member (.name .target))
  · exact .pure (.member (.position .target))
  · exact sound_textForm hn .target
  · exact sound_attributeForm hn .target
  · refine sound_expect.after fun _ => ?_
    refine sound_identifier.after fun field => ?_
    split
    · exact sound_attributeForm hn .parent
    · exact sound_textForm hn .parent
    · split
      · rename_i m hm
        refine .pure ?_
        have hd : Derives ctx.bindings parameter .vocabulary n (memberTokens m) _ := .member m
        rwa [memberTokens_of_field? hm] at hd
      · exact .fail

/-! ## Operands -/

theorem sound_receiver (hn : Sound nested (Derives ctx.bindings parameter (.chain .or) n))
    {p : String} (hp : parameter = some p) (start : Nat) :
    Sound (receiver ctx nested start) fun ts e =>
      Derives ctx.bindings parameter .operand n (.ident p :: ts) e := by
  unfold receiver
  refine sound_expect.after fun _ => ?_
  refine sound_identifier.after fun word => ?_
  split
  · rename_i head hh
    rw [Head.ofWord?_eq_some_iff.1 hh]
    exact (sound_vocabulary hn head).imp fun ts e hv => .receiver hp hv
  · exact .failAt

theorem sound_invoke {name : String} {f : Function} {v : Json.Value} (hf : ∀ calls, f calls = v) :
    Sound (invoke name f) fun ts r => ts = [] ∧ r = v := by
  intro s r s' hs
  cases hs
  exact ⟨[], rfl, rfl, hf _⟩

theorem sound_application (hb : ctx.bindings.Fixed)
    (hn : Sound nested (Derives ctx.bindings parameter (.chain .or) n)) {name : String}
    (hx : Free parameter name) :
    Sound (application ctx nested name) fun ts e =>
      Derives ctx.bindings parameter .operand n (.ident name :: .leftParen :: ts) e := by
  unfold application
  split
  · rename_i kind hk
    rw [LiteralKind.ofWord?_eq_some_iff] at hk
    subst hk
    refine hn.bind fun ts e he => ?_
    refine sound_expect.after fun _ => ?_
    exact .pure (by simpa using .conversion hx.not_parameter he)
  · rename_i hk
    refine sound_expect.after fun _ => ?_
    split
    · rename_i f hf
      obtain ⟨v, f', hf', hv⟩ := hb _ _ hf
      obtain rfl : f = f' := by rw [hf] at hf'; cases hf'; rfl
      refine (sound_invoke hv).bind fun us r hr => ?_
      obtain ⟨rfl, rfl⟩ := hr
      refine sound_fields.imp fun ts e he => ?_
      obtain ⟨names, rfl, rfl⟩ := he
      exact .call names hx (LiteralKind.ofWord?_eq_none_iff.1 hk) ⟨f, hf, hv⟩
    · exact .throw

theorem sound_captured {name : String} (hx : Free parameter name) (start : Nat) :
    Sound (captured ctx name start) fun ts e =>
      Derives ctx.bindings parameter .operand n (.ident name :: ts) e := by
  unfold captured
  split
  · rename_i v hv
    refine sound_fields.imp fun ts e he => ?_
    obtain ⟨names, rfl, rfl⟩ := he
    exact .captured names hx hv
  · exact .throw

theorem sound_named (hb : ctx.bindings.Fixed)
    (hn : Sound nested (Derives ctx.bindings ctx.parameter (.chain .or) n)) (name : String)
    (start : Nat) :
    Sound (named ctx nested name start) fun ts e =>
      Derives ctx.bindings ctx.parameter .operand n (.ident name :: ts) e := by
  unfold named
  split
  · rename_i hp
    exact sound_receiver hn hp start
  rename_i hp
  split
  · rename_i ht
    subst ht
    exact .pure (.truth true hp)
  rename_i ht
  split
  · rename_i hf
    subst hf
    exact .pure (.truth false hp)
  rename_i hf
  split
  · rename_i head hh
    rw [Head.ofWord?_eq_some_iff] at hh
    subst hh
    exact (sound_vocabulary hn head).imp fun ts e hv => .plain hp hv
  · rename_i hh
    have hx : Free ctx.parameter name := ⟨hp, ht, hf, Head.ofWord?_eq_none_iff.1 hh⟩
    refine sound_eat.after fun a => ?_
    cases a with
    | true => exact sound_application hb hn hx
    | false => exact sound_captured hx start

theorem sound_operand (hb : ctx.bindings.Fixed)
    (hn : Sound nested (Derives ctx.bindings ctx.parameter (.chain .or) n)) :
    Sound (operand ctx nested) (Derives ctx.bindings ctx.parameter .operand n) := by
  unfold operand
  refine sound_offset.after fun start => ?_
  refine sound_advance.after fun token => ?_
  split
  · refine hn.bind fun ts e he => ?_
    refine sound_expect.after fun _ => ?_
    exact .pure (by simpa using .group he)
  · exact .pure (.string _)
  · exact .pure (.integer _)
  · exact sound_named hb hn _ start
  · exact .failAt
  · exact .failAt

/-! ## Whole predicates -/

theorem sound_comparison (hb : ctx.bindings.Fixed)
    (hn : Sound nested (Derives ctx.bindings ctx.parameter (.chain .or) n)) :
    Sound (comparison ctx nested) (Derives ctx.bindings ctx.parameter .unary (n + 1)) := by
  unfold comparison
  refine (sound_operand hb hn).bind fun ts l hl => ?_
  refine sound_eat.after fun a => ?_
  cases a with
  | true =>
    refine (sound_operand hb hn).bind fun us r hr => ?_
    exact .pure (by simpa using .comparison hl hr)
  | false => exact .pure (by simpa using .single hl)

theorem sound_unary (hb : ctx.bindings.Fixed) (n : Nat) :
    Sound (unary ctx n) (Derives ctx.bindings ctx.parameter .unary n) := by
  induction n with
  | zero => exact .fail
  | succ n ih =>
    unfold unary
    refine sound_eat.after fun a => ?_
    cases a with
    | true => exact ih.bind fun us e he => .pure (by simpa using .negation he)
    | false => exact sound_comparison hb (sound_disjunction ih)

end ElementQuery.Parser
