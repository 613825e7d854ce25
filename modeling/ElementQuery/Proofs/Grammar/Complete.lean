/-
What is in the grammar the parser accepts. A derivation of tokens makes the parser of its phrase
take exactly these tokens, whatever follows them, as long as the next token could not have gone on
with the phrase; and no token that can stand after a phrase is one of those, so a greedy choice
never blocks a derivation.

Main statement: the parser accepts exactly the predicates of the grammar, with their trees.
-/
import Mathlib
import ElementQuery.Proofs.Grammar.Sound

namespace ElementQuery.Parser

/-! ## Tokens taken -/

/-- The next lexeme, if there is one, is none of the given tokens. -/
def Clear (stops : List Token) (rest : List Lexeme) : Prop := ∀ l ∈ rest.head?, l.token ∉ stops

/-- A parser takes the given tokens and returns a value, unless one of `stops` comes next. -/
def Takes {α : Type} (p : Parser α) (ts : List Token) (a : α) (stops : List Token) : Prop :=
  ∀ used rest calls, used.map Lexeme.token = ts → Clear stops rest →
    ∃ calls', p ⟨used ++ rest, calls⟩ = .ok a ⟨rest, calls'⟩

theorem Clear.mono {S T : List Token} {rest : List Lexeme} (h : Clear T rest) (hs : S ⊆ T) :
    Clear S rest := fun l hl ht => h l hl (hs ht)

/-- Tokens that start with none of the stops leave them clear; if there are no tokens, what
follows has to. -/
theorem Clear.append {S T ts : List Token} {used rest : List Lexeme}
    (hu : used.map Lexeme.token = ts) (hs : ∀ t ∈ ts.head?, t ∉ S) (hn : ts = [] → S ⊆ T)
    (h : Clear T rest) : Clear S (used ++ rest) := by
  subst hu
  cases used with
  | nil => exact h.mono (hn rfl)
  | cons l used =>
    intro l' hl
    cases hl
    exact hs l.token rfl

namespace Takes

variable {α β : Type} {S T : List Token}

theorem mono {p : Parser α} {ts : List Token} {a : α} (h : Takes p ts a S) (hs : S ⊆ T) :
    Takes p ts a T :=
  fun used rest calls hu hc => h used rest calls hu (hc.mono hs)

/-- A parser that takes nothing is looked at on what follows alone. -/
theorem of_nil {p : Parser α} {a : α}
    (h : ∀ rest calls, Clear S rest → ∃ calls', p ⟨rest, calls⟩ = .ok a ⟨rest, calls'⟩) :
    Takes p [] a S := by
  intro used rest calls hu hc
  rw [List.map_eq_nil_iff] at hu
  subst hu
  exact h rest calls hc

theorem of_single {p : Parser α} {t : Token} {a : α}
    (h : ∀ o rest calls, ∃ calls', p ⟨⟨t, o⟩ :: rest, calls⟩ = .ok a ⟨rest, calls'⟩) :
    Takes p [t] a S := by
  intro used rest calls hu _
  obtain ⟨⟨_, o⟩, used', rfl, rfl, hu'⟩ := List.map_eq_cons_iff.1 hu
  rw [List.map_eq_nil_iff] at hu'
  subst hu'
  exact h o rest calls

theorem pure {a : α} : Takes (Pure.pure a) [] a S := .of_nil fun _ calls _ => ⟨calls, rfl⟩

/-- A sequence takes the tokens of both parts, if the second does not start with a stop of the
first. -/
theorem bind {p : Parser α} {f : α → Parser β} {ts us : List Token} {a : α} {b : β}
    (hp : Takes p ts a S) (hf : Takes (f a) us b T) (hs : ∀ t ∈ us.head?, t ∉ S)
    (hn : us = [] → S ⊆ T) : Takes (p >>= f) (ts ++ us) b T := by
  intro used rest calls hu hc
  obtain ⟨used, used', rfl, hu, hu'⟩ := List.map_eq_append_iff.1 hu
  obtain ⟨calls', h1⟩ := hp used (used' ++ rest) calls hu (Clear.append hu' hs hn hc)
  obtain ⟨calls'', h2⟩ := hf used' rest calls' hu' hc
  refine ⟨calls'', bind_eq_ok.2 ⟨a, _, ?_, h2⟩⟩
  rw [List.append_assoc]
  exact h1

/-- A sequence whose first part takes one token and does not look further. -/
theorem cons {p : Parser α} {f : α → Parser β} {t : Token} {ts : List Token} {a : α} {b : β}
    (hp : Takes p [t] a []) (hf : Takes (f a) ts b T) : Takes (p >>= f) (t :: ts) b T :=
  hp.bind hf (by simp) (by simp)

/-- A sequence whose first part takes nothing. -/
theorem skip {p : Parser α} {f : α → Parser β} {ts : List Token} {a : α} {b : β}
    (hp : Takes p [] a S) (hf : Takes (f a) ts b T) (hs : ∀ t ∈ ts.head?, t ∉ S)
    (hn : ts = [] → S ⊆ T) : Takes (p >>= f) ts b T :=
  hp.bind hf hs hn

/-- A sequence whose second part takes nothing. -/
theorem last {p : Parser α} {f : α → Parser β} {ts : List Token} {a : α} {b : β}
    (hp : Takes p ts a S) (hf : Takes (f a) [] b T) (hs : S ⊆ T) : Takes (p >>= f) ts b T := by
  have h : Takes (p >>= f) (ts ++ []) b T := hp.bind hf (by simp) fun _ => hs
  rwa [List.append_nil] at h

theorem map {p : Parser α} {g : α → β} {ts : List Token} {a : α} (hp : Takes p ts a S) :
    Takes (p >>= fun a => Pure.pure (g a)) ts (g a) S :=
  hp.last .pure (List.Subset.refl S)

theorem peek {f : Option Token → Parser β} {t : Token} {ts : List Token} {b : β}
    (hf : Takes (f (some t)) (t :: ts) b T) : Takes (peek >>= f) (t :: ts) b T := by
  intro used rest calls hu hc
  obtain ⟨l, used', rfl, hl, -⟩ := List.map_eq_cons_iff.1 hu
  obtain ⟨calls', h⟩ := hf _ rest calls hu hc
  refine ⟨calls', bind_eq_ok.2 ⟨some t, _, ?_, h⟩⟩
  rw [← hl]
  rfl

theorem offset {ctx : Context} {f : Nat → Parser β} {ts : List Token} {b : β}
    (hf : ∀ o, Takes (f o) ts b T) : Takes (offset ctx >>= f) ts b T := by
  intro used rest calls hu hc
  obtain ⟨calls', h⟩ := hf _ used rest calls hu hc
  exact ⟨calls', bind_eq_ok.2 ⟨_, _, rfl, h⟩⟩

end Takes

variable {ctx : Context}

/-! ## Single tokens -/

theorem takes_advance {t : Token} : Takes advance [t] (some t) [] :=
  .of_single fun _ _ calls => ⟨calls, rfl⟩

theorem takes_eat {t : Token} : Takes (eat t) [t] true [] :=
  .of_single fun _ _ calls => ⟨calls, by simp [eat]⟩

theorem takes_eat_false {t : Token} : Takes (eat t) [] false [t] := by
  refine .of_nil fun rest calls hc => ⟨calls, ?_⟩
  cases rest with
  | nil => rfl
  | cons l rest =>
    have hl : ¬ l.token = t := by simpa using hc l rfl
    simp [eat, hl]

theorem takes_expect {t : Token} : Takes (expect ctx t) [t] () [] :=
  takes_eat.bind .pure (by simp) (by simp)

theorem takes_identifier {x : String} : Takes (identifier ctx) [.ident x] x [] :=
  .peek (takes_advance.bind .pure (by simp) (by simp))

theorem takes_invoke {name : String} {f : Function} {v : Json.Value} (hf : ∀ calls, f calls = v) :
    Takes (invoke name f) [] v [] :=
  .of_nil fun _ calls _ => ⟨calls ++ [name], by simp [invoke, hf]⟩

open Grammar

theorem takes_fields (names : List String) (object : Expr) :
    Takes (fields ctx object) (fieldTokens names) (names.foldl .member object) [.dot] := by
  induction names generalizing object with
  | nil =>
    refine .of_nil fun rest calls hc => ⟨calls, ?_⟩
    -- what is left does not start with a dot, so the last equation of the fields applies
    rcases rest with _ | ⟨⟨token, o⟩, rest⟩
    · simp [fields, fieldsFrom]
    · have ht : token ≠ .dot := by simpa using hc _ rfl
      cases token <;> simp_all [fields, fieldsFrom]
  | cons name names ih =>
    intro used rest calls hu hc
    obtain ⟨⟨_, o⟩, used', rfl, rfl, hu'⟩ := List.map_eq_cons_iff.1 hu
    obtain ⟨⟨_, o'⟩, used'', rfl, rfl, hu''⟩ := List.map_eq_cons_iff.1 hu'
    obtain ⟨calls', h⟩ := ih (.member object name) used'' rest calls hu'' hc
    refine ⟨calls', ?_⟩
    simp only [fields, List.cons_append, fieldsFrom] at h ⊢
    exact h

/-! ## The vocabulary -/

variable {nested : Parser Expr} {n : Nat} {ts : List Token} {e : Expr} {S : List Token}

theorem takes_argument (hn : Takes nested ts e S) (hr : .rightParen ∉ S) :
    Takes (argument ctx nested) (.leftParen :: (ts ++ [.rightParen])) e [] := by
  unfold argument
  refine takes_expect.cons ?_
  refine hn.bind ?_ (by simpa using hr) (by simp)
  refine .peek ?_
  rw [if_neg (by decide)]
  exact takes_expect.cons .pure

theorem takes_containsForm (hn : Takes nested ts e S) (hr : .rightParen ∉ S) (subject : Path) :
    Takes (containsForm ctx nested subject) (.leftParen :: (ts ++ [.rightParen]))
      (.contains subject e) [] := by
  unfold containsForm
  exact (takes_argument hn hr).map

theorem takes_attributeName {t : Token} {name : String}
    (ht : AttributeName ctx.bindings t name) : Takes (attributeName ctx) [t] name [] := by
  unfold attributeName
  cases ht with
  | quoted s => exact takes_advance.cons .pure
  | bound hv =>
    refine takes_advance.cons ?_
    simp only [hv]
    exact .pure

theorem takes_attributeForm_text {t : Token} {name : String}
    (ht : AttributeName ctx.bindings t name) (owner : Owner) :
    Takes (attributeForm ctx nested owner) [.leftParen, t, .rightParen, .dot, .ident "Text"]
      (.path (.attributeText ⟨owner, name⟩)) [] := by
  unfold attributeForm
  refine takes_expect.cons ((takes_attributeName ht).cons (takes_expect.cons (takes_expect.cons ?_)))
  exact takes_identifier.cons .pure

theorem takes_attributeForm_contains {t : Token} {name : String}
    (ht : AttributeName ctx.bindings t name) (hn : Takes nested ts e S) (hr : .rightParen ∉ S)
    (owner : Owner) :
    Takes (attributeForm ctx nested owner) (.leftParen :: t :: .rightParen :: containsTokens ts)
      (.contains (.attributeText ⟨owner, name⟩) e) [] := by
  unfold attributeForm
  refine takes_expect.cons ((takes_attributeName ht).cons (takes_expect.cons (takes_expect.cons ?_)))
  exact takes_identifier.cons (takes_containsForm hn hr _)

theorem takes_textForm (owner : Owner) :
    Takes (textForm ctx nested owner) [] (.path (.member (.text owner))) [.dot] := by
  refine .of_nil fun rest calls hc => ⟨calls, ?_⟩
  rcases rest with _ | ⟨⟨token, o⟩, rest⟩
  · rfl
  · have ht : token ≠ .dot := by simpa using hc _ rfl
    cases token <;> simp_all [textForm]

theorem takes_textForm_contains (hn : Takes nested ts e S) (hr : .rightParen ∉ S) (owner : Owner) :
    Takes (textForm ctx nested owner) (containsTokens ts) (.contains (.member (.text owner)) e)
      [] := by
  intro used rest calls hu hc
  obtain ⟨⟨_, o⟩, used', rfl, rfl, hu'⟩ := List.map_eq_cons_iff.1 hu
  obtain ⟨⟨_, o'⟩, used'', rfl, rfl, hu''⟩ := List.map_eq_cons_iff.1 hu'
  exact takes_containsForm hn hr _ used'' rest calls hu'' hc

theorem takes_vocabulary_field {head : Head} {field : String} {m : Member}
    (h : head.field? field = some m) :
    Takes (vocabulary ctx nested head) [.dot, .ident field] (.path (.member m)) [] := by
  unfold Head.field? at h
  split at h
  all_goals cases h
  all_goals exact takes_expect.cons (takes_identifier.cons .pure)

/-- The words of a member are a head and what the parser of its path takes. -/
theorem takes_vocabulary_member (m : Member) :
    ∃ head us, memberTokens m = .ident (Head.word head) :: us ∧
      Takes (vocabulary ctx nested head) us (.path (.member m)) [.dot] := by
  have hfield (head : Head) (field : String) (h : head.field? field = some m) :
      ∃ head us, memberTokens m = .ident (Head.word head) :: us ∧
        Takes (vocabulary ctx nested head) us (.path (.member m)) [.dot] :=
    ⟨head, _, memberTokens_of_field? h, (takes_vocabulary_field h).mono (by simp)⟩
  cases m with
  | name owner =>
    cases owner with
    | target => exact ⟨.targetName, [], rfl, .pure⟩
    | parent => exact hfield .parent "Name" rfl
  | position owner =>
    cases owner with
    | target => exact ⟨.position, [], rfl, .pure⟩
    | parent => exact hfield .parent "Position" rfl
  | text owner =>
    cases owner with
    | target => exact ⟨.text, [], rfl, takes_textForm .target⟩
    | parent =>
      exact ⟨.parent, _, rfl, takes_expect.cons (takes_identifier.cons (takes_textForm .parent))⟩
  | siblingName axis => exact hfield (.sibling axis) "Name" rfl
  | relativeName axis => exact hfield (.relative axis) "Name" rfl

theorem takes_vocabulary_textContains (hn : Takes nested ts e S) (hr : .rightParen ∉ S)
    (owner : Owner) :
    ∃ head us, memberTokens (.text owner) ++ containsTokens ts = .ident (Head.word head) :: us ∧
      Takes (vocabulary ctx nested head) us (.contains (.member (.text owner)) e) [] := by
  cases owner with
  | target => exact ⟨.text, _, rfl, takes_textForm_contains hn hr .target⟩
  | parent =>
    refine ⟨.parent, _, rfl, ?_⟩
    exact takes_expect.cons (takes_identifier.cons (takes_textForm_contains hn hr .parent))

/-- An attribute of either owner is a head and what the parser of attributes takes. -/
theorem takes_vocabulary_attribute {owner : Owner} {us : List Token}
    (h : Takes (attributeForm ctx nested owner) us e S) :
    ∃ head vs, ownerTokens owner ++ .ident "Attribute" :: us = .ident (Head.word head) :: vs ∧
      Takes (vocabulary ctx nested head) vs e S := by
  cases owner with
  | target => exact ⟨.attributes, _, rfl, h⟩
  | parent => exact ⟨.parent, _, rfl, takes_expect.cons (takes_identifier.cons h)⟩

/-! ## Operands -/

theorem takes_operand_of_named {x : String}
    (h : ∀ start, Takes (named ctx nested x start) ts e S) :
    Takes (operand ctx nested) (.ident x :: ts) e S := by
  unfold operand
  exact .offset fun start => takes_advance.cons (h start)

theorem takes_operand_group (hn : Takes nested ts e S) (hr : .rightParen ∉ S) :
    Takes (operand ctx nested) (.leftParen :: (ts ++ [.rightParen])) e [] := by
  unfold operand
  refine .offset fun start => takes_advance.cons ?_
  exact hn.bind (takes_expect.cons .pure) (by simpa using hr) (by simp)

theorem takes_receiver {p : String} {head : Head} (hp : ctx.parameter = some p)
    (h : Takes (vocabulary ctx nested head) ts e S) (start : Nat) :
    Takes (named ctx nested p start) (.dot :: .ident head.word :: ts) e S := by
  unfold named receiver
  rw [if_pos hp]
  refine takes_expect.cons (takes_identifier.cons ?_)
  simp only [Head.ofWord?_word]
  exact h

theorem takes_truth {v : Bool} (hp : ctx.parameter ≠ some (Literal.bool v).text) (start : Nat) :
    Takes (named ctx nested (Literal.bool v).text start) [] (.literal (.bool v)) [] := by
  unfold named
  rw [if_neg hp]
  cases v
  · exact .pure
  · exact .pure

theorem takes_plain {head : Head} (hp : ctx.parameter ≠ some head.word)
    (h : Takes (vocabulary ctx nested head) ts e S) (start : Nat) :
    Takes (named ctx nested head.word start) ts e S := by
  have ht : head.word ≠ "true" ∧ head.word ≠ "false" := by
    cases head with
    | sibling axis => cases axis <;> decide
    | relative axis => cases axis <;> decide
    | _ => decide
  unfold named
  rw [if_neg hp, if_neg ht.1, if_neg ht.2]
  simp only [Head.ofWord?_word]
  exact h

/-- A name that is left to the caller is applied or read. -/
theorem named_of_free {x : String} (hx : Free ctx.parameter x) (start : Nat) :
    named ctx nested x start = (do
      if ← eat .leftParen then application ctx nested x else captured ctx x start) := by
  unfold named
  rw [if_neg hx.not_parameter, if_neg hx.not_true, if_neg hx.not_false]
  simp only [Head.ofWord?_eq_none_iff.2 hx.not_head]

theorem free_kind {parameter : Option String} {k : LiteralKind} (hp : parameter ≠ some k.word) :
    Free parameter k.word := by
  refine ⟨hp, ?_, ?_, Head.ofWord?_eq_none_iff.1 ?_⟩ <;> cases k <;> decide

theorem takes_conversion {k : LiteralKind} (hp : ctx.parameter ≠ some k.word)
    (hn : Takes nested ts e S) (hr : .rightParen ∉ S) (start : Nat) :
    Takes (named ctx nested k.word start) (.leftParen :: (ts ++ [.rightParen])) (.convert k e)
      [] := by
  rw [named_of_free (free_kind hp)]
  refine takes_eat.cons ?_
  unfold application
  simp only [LiteralKind.ofWord?_word, if_true]
  exact hn.bind (takes_expect.cons .pure) (by simpa using hr) (by simp)

theorem takes_call {f : String} {v : Json.Value} (fields : List String)
    (hx : Free ctx.parameter f) (hk : ∀ k : LiteralKind, f ≠ k.word) (hv : ctx.bindings.Returns f v)
    (start : Nat) :
    Takes (named ctx nested f start) (.leftParen :: .rightParen :: fieldTokens fields)
      (fields.foldl .member (.call f v)) [.dot] := by
  obtain ⟨g, hg, hv⟩ := hv
  rw [named_of_free hx]
  refine takes_eat.cons ?_
  unfold application
  simp only [LiteralKind.ofWord?_eq_none_iff.2 hk, hg, if_true]
  refine takes_expect.cons ?_
  exact (takes_invoke hv).skip (takes_fields fields _) (by simp) (by simp)

theorem takes_captured {x : String} {v : Json.Value} (fields : List String)
    (hx : Free ctx.parameter x) (hv : ctx.bindings.value? x = some v) (start : Nat) :
    Takes (named ctx nested x start) (fieldTokens fields) (fields.foldl .member (.captured x v))
      [.dot, .leftParen] := by
  rw [named_of_free hx]
  refine takes_eat_false.skip ?_ ?_ ?_
  · unfold captured
    simp only [hv, Bool.false_eq_true, if_false]
    exact (takes_fields fields _).mono (by simp)
  · cases fields <;> simp [fieldTokens]
  · simp

/-! ## Chains -/

/-- The tokens that would go on with a phrase. -/
def stops : Phrase → List Token
  | .operand | .vocabulary => [.dot, .leftParen]
  | .unary => [.dot, .leftParen, .equals]
  | .chain .and | .links .and _ => [.dot, .leftParen, .equals, .conj]
  | .chain .or | .links .or _ => [.dot, .leftParen, .equals, .conj, .disj]

theorem stops_item_subset (c : Connective) : stops c.item ⊆ stops (.chain c) := by
  cases c <;> simp [stops, Connective.item]

theorem token_notMem_stops_item (c : Connective) : c.token ∉ stops c.item := by
  cases c <;> simp [stops, Connective.item, Connective.token]

theorem rightParen_notMem_stops : Token.rightParen ∉ stops (.chain .or) := by simp [stops]

theorem takes_links_finish {c : Connective} {item : Parser Expr} {left : Expr} (bound : Nat) :
    Takes (links c.token c.join item bound left) [] left (stops (.chain c)) := by
  refine .of_nil fun rest calls hc => ⟨calls, ?_⟩
  cases bound with
  | zero => rfl
  | succ bound =>
    cases rest with
    | nil => rfl
    | cons l rest =>
      have hl : ¬ l.token = c.token := by
        intro h
        refine hc l rfl ?_
        rw [h]
        cases c <;> simp [stops, Connective.token]
      simp only [links, if_neg hl]

theorem takes_links_link {c : Connective} {item : Parser Expr} {left right : Expr}
    {us : List Token} {bound : Nat} (hi : Takes item ts right (stops c.item))
    (hs : ∀ t ∈ us.head?, t = c.token)
    (h : Takes (links c.token c.join item bound (c.join left right)) us e (stops (.chain c))) :
    Takes (links c.token c.join item (bound + 1) left) (c.token :: (ts ++ us)) e
      (stops (.chain c)) := by
  intro used rest calls hu hc
  obtain ⟨l, used', rfl, hl, hu'⟩ := List.map_eq_cons_iff.1 hu
  obtain ⟨used₁, used₂, rfl, hu₁, hu₂⟩ := List.map_eq_append_iff.1 hu'
  have hclear : Clear (stops c.item) (used₂ ++ rest) :=
    Clear.append hu₂ (fun t ht => hs t ht ▸ token_notMem_stops_item c)
      (fun _ => stops_item_subset c) hc
  obtain ⟨calls₁, h₁⟩ := hi used₁ (used₂ ++ rest) calls hu₁ hclear
  obtain ⟨calls₂, h₂⟩ := h used₂ rest calls₁ hu₂ hc
  refine ⟨calls₂, ?_⟩
  rw [← List.append_assoc] at h₁
  simp only [links, List.cons_append, hl, if_true, h₁]
  exact h₂

theorem takes_chain {c : Connective} {item : Parser Expr} {first : Expr} {us : List Token}
    (hi : Takes item ts first (stops c.item)) (hs : ∀ t ∈ us.head?, t = c.token)
    (h : ∀ bound, us.length ≤ bound →
      Takes (links c.token c.join item bound first) us e (stops (.chain c))) :
    Takes (chain c.token c.join item) (ts ++ us) e (stops (.chain c)) := by
  unfold chain
  refine hi.bind ?_ (fun t ht => hs t ht ▸ token_notMem_stops_item c) fun _ => stops_item_subset c
  intro used rest calls hu hc
  -- the loop is bounded by the lexemes that are left, and each link takes one of them
  refine h _ ?_ used rest calls hu hc
  rw [← hu]
  simp

/-! ## Derivations -/

/-- The parser of what a connective joins, with `n` levels of nesting left. -/
def itemParser (ctx : Context) (n : Nat) : Connective → Parser Expr
  | .and => unary ctx n
  | .or => chain .conj .and (unary ctx n)

/-- The parser of a phrase takes the given tokens and returns the given tree. A path of the
vocabulary is parsed from the word after its head on. -/
def Parses (ctx : Context) : Phrase → Nat → List Token → Expr → Prop
  | .chain c, n, ts, e => Takes (chain c.token c.join (itemParser ctx n c)) ts e (stops (.chain c))
  | .links c left, n, ts, e => ∀ bound, ts.length ≤ bound →
      Takes (links c.token c.join (itemParser ctx n c) bound left) ts e (stops (.chain c))
  | .unary, n, ts, e => Takes (unary ctx n) ts e (stops .unary)
  | .operand, n, ts, e => Takes (operand ctx (disjunction (unary ctx n))) ts e (stops .operand)
  | .vocabulary, n, ts, e => ∃ head us, ts = .ident (Head.word head) :: us ∧
      Takes (vocabulary ctx (disjunction (unary ctx n)) head) us e (stops .vocabulary)

theorem takes_item {c : Connective} (h : Parses ctx c.item n ts e) :
    Takes (itemParser ctx n c) ts e (stops c.item) := by
  cases c
  · exact h
  · exact h

theorem takes_unary_negation (h : Takes (unary ctx n) ts e (stops .unary)) :
    Takes (unary ctx (n + 1)) (.bang :: ts) (.not e) (stops .unary) := by
  rw [unary]
  exact takes_eat.cons h.map

theorem takes_unary_of_comparison {T : List Token} (hb : ∃ t us, ts = t :: us ∧ t ≠ .bang)
    (h : Takes (comparison ctx (disjunction (unary ctx n))) ts e T) :
    Takes (unary ctx (n + 1)) ts e T := by
  obtain ⟨t, us, rfl, ht⟩ := hb
  rw [unary]
  exact takes_eat_false.skip h (by simpa using ht) (by simp)

theorem takes_comparison_single (h : Takes (operand ctx nested) ts e (stops .operand)) :
    Takes (comparison ctx nested) ts e (stops .unary) := by
  unfold comparison
  exact h.last (takes_eat_false.skip .pure (by simp) (by simp [stops])) (by simp [stops])

theorem takes_comparison {l r : Expr} {us : List Token}
    (hl : Takes (operand ctx nested) ts l (stops .operand))
    (hr : Takes (operand ctx nested) us r (stops .operand)) :
    Takes (comparison ctx nested) (ts ++ .equals :: us) (.eq l r) (stops .operand) := by
  unfold comparison
  exact hl.bind (takes_eat.cons hr.map) (by simp [stops]) (by simp)

/-- The parser of a phrase takes every derivation of it. -/
theorem parses_of_derives {ph : Phrase}
    (h : Derives ctx.bindings ctx.parameter ph n ts e) : Parses ctx ph n ts e := by
  -- one case for each production; the parser `nested` of an inner disjunction is that of `n` levels
  induction h with
  | chain hi hl ihi ihl => exact takes_chain (takes_item ihi) hl.head?_links ihl
  | finish => exact fun bound _ => takes_links_finish bound
  | link hi hl ihi ihl =>
    intro bound hb
    cases bound with
    | zero => simp at hb
    | succ bound =>
      refine takes_links_link (takes_item ihi) hl.head?_links (ihl bound ?_)
      simp only [List.length_cons, List.length_append] at hb
      omega
  | negation h ih => exact takes_unary_negation ih
  | single h ih => exact takes_unary_of_comparison h.operand_cons (takes_comparison_single ih)
  | comparison hl hr ihl ihr =>
    refine takes_unary_of_comparison ?_ ((takes_comparison ihl ihr).mono (by simp [stops]))
    obtain ⟨t, us, rfl, ht⟩ := hl.operand_cons
    exact ⟨t, _, rfl, ht⟩
  | group h ih => exact (takes_operand_group ih rightParen_notMem_stops).mono (by simp)
  | string s =>
    unfold Parses operand
    exact .offset fun start => takes_advance.cons .pure
  | integer i =>
    unfold Parses operand
    exact .offset fun start => takes_advance.cons .pure
  | receiver hp h ih =>
    obtain ⟨head, us, rfl, hv⟩ := ih
    exact takes_operand_of_named (takes_receiver hp hv)
  | truth v hp => exact (takes_operand_of_named (takes_truth hp)).mono (by simp)
  | plain hp h ih =>
    obtain ⟨head, us, heq, hv⟩ := ih
    cases heq
    exact takes_operand_of_named (takes_plain hp hv)
  | conversion hp h ih =>
    exact (takes_operand_of_named (takes_conversion hp ih rightParen_notMem_stops)).mono (by simp)
  | call fields hx hk hv =>
    exact (takes_operand_of_named (takes_call fields hx hk hv)).mono (by simp [stops])
  | captured fields hx hv => exact takes_operand_of_named (takes_captured fields hx hv)
  | member m =>
    obtain ⟨head, us, heq, hv⟩ := takes_vocabulary_member m
    exact ⟨head, us, heq, hv.mono (by simp [stops])⟩
  | textContains h ih =>
    obtain ⟨head, us, heq, hv⟩ := takes_vocabulary_textContains ih rightParen_notMem_stops _
    exact ⟨head, us, heq, hv.mono (by simp)⟩
  | attributeText ht =>
    obtain ⟨head, us, heq, hv⟩ := takes_vocabulary_attribute (takes_attributeForm_text ht _)
    exact ⟨head, us, by simpa [attributeTokens] using heq, hv.mono (by simp)⟩
  | attributeContains ht h ih =>
    obtain ⟨head, us, heq, hv⟩ := takes_vocabulary_attribute
      (takes_attributeForm_contains ht ih rightParen_notMem_stops _)
    exact ⟨head, us, by simpa [attributeTokens] using heq, hv.mono (by simp)⟩

/-! ## Whole predicates -/

variable {lexemes : List Lexeme}

theorem whole_of_derives (ctx : Context) (calls : List String)
    (h : Derives ctx.bindings ctx.parameter (.chain .or) maxDepth (lexemes.map Lexeme.token) e) :
    ∃ calls', whole ctx ⟨lexemes, calls⟩ = .ok e ⟨[], calls'⟩ := by
  have hp : Takes (body ctx) (lexemes.map Lexeme.token) e (stops (.chain .or)) :=
    parses_of_derives h
  obtain ⟨calls', hs⟩ := hp lexemes [] calls rfl (by simp [Clear])
  rw [List.append_nil] at hs
  exact ⟨calls', bind_eq_ok.2 ⟨e, _, hs, rfl⟩⟩

theorem derives_of_whole (ctx : Context) {s s' : State} (hb : ctx.bindings.Fixed) (hs : whole ctx s = .ok e s') :
    Derives ctx.bindings ctx.parameter (.chain .or) maxDepth (s.rest.map Lexeme.token) e := by
  obtain ⟨a, ⟨rest, calls⟩, h₁, h₂⟩ := bind_eq_ok.1 hs
  cases rest with
  | nil =>
    cases h₂
    obtain ⟨used, hu, hd⟩ := sound_disjunction (sound_unary hb maxDepth) _ _ _ h₁
    rw [hu, List.append_nil]
    exact hd
  | cons l rest => cases h₂

/-- Lexemes start with a lambda header, or all of them are parsed. -/
theorem header_cases (lexemes : List Lexeme) :
    (∃ p rest, header lexemes = (some p, rest) ∧
      lexemes.map Lexeme.token = .ident p :: .arrow :: rest.map Lexeme.token) ∨
    (header lexemes = (none, lexemes) ∧
      ∀ p ts, lexemes.map Lexeme.token ≠ .ident p :: .arrow :: ts) := by
  unfold header
  split
  · exact .inl ⟨_, _, rfl, rfl⟩
  · rename_i hne
    refine .inr ⟨rfl, fun p ts heq => ?_⟩
    obtain ⟨⟨_, o⟩, rest, rfl, rfl, hrest⟩ := List.map_eq_cons_iff.1 heq
    obtain ⟨⟨_, o'⟩, rest', rfl, rfl, -⟩ := List.map_eq_cons_iff.1 hrest
    exact hne _ _ _ _ rfl

variable {b : Bindings} {finish : Nat}

/-- The tree of a predicate is that of a parse with the parameter and the lexemes after the
header. -/
theorem parseLexemes_eq_ok {parameter : Option String} {rest : List Lexeme} (hne : lexemes ≠ [])
    (hh : header lexemes = (parameter, rest)) :
    (parseLexemes b finish lexemes).result = .ok e ↔
      ∃ s', whole ⟨b, parameter, finish⟩ ⟨rest, []⟩ = .ok e s' := by
  unfold parseLexemes
  rw [if_neg (by simpa using hne), hh]
  dsimp only
  split
  · rename_i e' s' hw
    simp [hw]
  · rename_i err calls hw
    simp [hw]

theorem parseLexemes_of_predicate (h : Predicate b (lexemes.map Lexeme.token) e) :
    (parseLexemes b finish lexemes).result = .ok e := by
  generalize hts : lexemes.map Lexeme.token = ts at h
  have hne : ts ≠ [] := by
    cases h with
    | plain hd => exact hd.chain_ne_nil
    | lambda hd => simp
  have hne' : lexemes ≠ [] := by
    rintro rfl
    exact hne hts.symm
  rcases header_cases lexemes with ⟨p, rest, hh, htokens⟩ | ⟨hh, hnone⟩
  · rw [parseLexemes_eq_ok hne' hh]
    rw [htokens] at hts
    cases h with
    | plain hd => exact absurd (by rw [← hts]; simp) hd.arrow_notMem
    | lambda hd =>
      cases hts
      obtain ⟨calls', hw⟩ := whole_of_derives ⟨b, some p, finish⟩ [] hd
      exact ⟨_, hw⟩
  · rw [parseLexemes_eq_ok hne' hh]
    cases h with
    | plain hd =>
      subst hts
      obtain ⟨calls', hw⟩ := whole_of_derives ⟨b, none, finish⟩ [] hd
      exact ⟨_, hw⟩
    | lambda hd => exact absurd hts (hnone _ _)

theorem predicate_of_parseLexemes (hb : b.Fixed)
    (h : (parseLexemes b finish lexemes).result = .ok e) :
    Predicate b (lexemes.map Lexeme.token) e := by
  have hne : lexemes ≠ [] := by
    rintro rfl
    cases h
  rcases header_cases lexemes with ⟨p, rest, hh, htokens⟩ | ⟨hh, -⟩
  · obtain ⟨s', hw⟩ := (parseLexemes_eq_ok hne hh).1 h
    rw [htokens]
    exact .lambda (derives_of_whole ⟨b, some p, finish⟩ hb hw)
  · obtain ⟨s', hw⟩ := (parseLexemes_eq_ok hne hh).1 h
    exact .plain (derives_of_whole ⟨b, none, finish⟩ hb hw)

/-- The parser accepts exactly the grammar: with functions that return fixed values, lexemes are
parsed to a tree if and only if all of their tokens have a derivation with that tree. -/
theorem parseLexemes_eq_ok_iff_predicate (hb : b.Fixed) (finish : Nat) (lexemes : List Lexeme)
    (e : Expr) :
    (parseLexemes b finish lexemes).result = .ok e ↔ Predicate b (lexemes.map Lexeme.token) e :=
  ⟨predicate_of_parseLexemes hb, parseLexemes_of_predicate⟩

/-- A lambda header, its parameter before a path, and a call: the tokens of
`e => e.Position == count()`. -/
theorem parseLexemes_eq_ok_iff_predicate_call :
    Bindings.Fixed ⟨[], [("count", fun _ => .int 4)]⟩ ∧
      Predicate ⟨[], [("count", fun _ => .int 4)]⟩
        [.ident "e", .arrow, .ident "e", .dot, .ident "Position", .equals, .ident "count",
          .leftParen, .rightParen]
        (.eq (.path (.member (.position .target))) (.call "count" (.int 4))) := by
  have hb : Bindings.Fixed ⟨[], [("count", fun _ => .int 4)]⟩ := by
    intro name f hf
    obtain ⟨rfl, rfl⟩ : name = "count" ∧ f = fun _ => .int 4 := by
      simp only [Bindings.function?, List.lookup] at hf
      split at hf
      · rename_i h
        cases hf
        exact ⟨by simpa using h, rfl⟩
      · cases hf
    exact ⟨_, _, rfl, fun _ => rfl⟩
  refine ⟨hb, ?_⟩
  exact (parseLexemes_eq_ok_iff_predicate hb 0
    [⟨.ident "e", 0⟩, ⟨.arrow, 0⟩, ⟨.ident "e", 0⟩, ⟨.dot, 0⟩, ⟨.ident "Position", 0⟩,
      ⟨.equals, 0⟩, ⟨.ident "count", 0⟩, ⟨.leftParen, 0⟩, ⟨.rightParen, 0⟩] _).1 rfl

end ElementQuery.Parser
