/-
The lambda header is notation. Put before a predicate that has none, with a parameter that is new
to it, it changes neither the tree nor the calls, and the parameter and a dot may then stand before
any of the heads that start an operand.

A head starts an operand where it stands neither after a dot, as a field, nor as the name of an
attribute. Each production of the grammar without a parameter goes over to one with it: the words
of a path leave no room for the parameter after their head, and a path that is an operand goes on
as it is or as one with the parameter for its receiver.
-/
import ElementQuery.Proofs.Parser.Calls

namespace ElementQuery

namespace Grammar

/-! ## Heads with a receiver -/

/-- Whether a token is the word for a head. -/
def isHead : Token → Bool
  | .ident x => (Head.ofWord? x).isSome
  | _ => false

/-- Whether an operand can start after some tokens, the last one first: not after a dot, and not at
the name of an attribute. -/
def startsOperand : List Token → Bool
  | .dot :: _ => false
  | .leftParen :: .ident "Attribute" :: _ => false
  | _ => true

/-- Tokens that stand after some others, the last one first, with the parameter and a dot put before
the chosen ones of the heads that start an operand. A token is chosen by the number of tokens before
it. -/
def qualify (p : String) (chosen : Nat → Bool) : List Token → List Token → List Token
  | _, [] => []
  | before, t :: ts =>
    if chosen before.length && (startsOperand before && isHead t) then
      .ident p :: .dot :: t :: qualify p chosen (t :: before) ts
    else t :: qualify p chosen (t :: before) ts

variable {p : String} {chosen : Nat → Bool} {before ts us : List Token} {t : Token}

/-- A token that is no head, or stands where no operand starts, is kept as it is. -/
theorem qualify_cons (h : (startsOperand before && isHead t) = false) :
    qualify p chosen before (t :: ts) = t :: qualify p chosen (t :: before) ts := by
  rw [qualify, h, Bool.and_false]
  rfl

theorem qualify_token (h : isHead t = false) :
    qualify p chosen before (t :: ts) = t :: qualify p chosen (t :: before) ts :=
  qualify_cons (by rw [h, Bool.and_false])

theorem qualify_append (before ts us : List Token) :
    qualify p chosen before (ts ++ us) =
      qualify p chosen before ts ++ qualify p chosen (ts.reverse ++ before) us := by
  induction ts generalizing before with
  | nil => rfl
  | cons t ts ih =>
    simp only [List.cons_append, qualify, ih, List.reverse_cons, List.append_assoc,
      List.nil_append]
    split <;> rfl

/-- A name of the caller is kept as it is. -/
theorem qualify_free {parameter : Option String} {x : String} (h : Free parameter x) :
    qualify p chosen before (.ident x :: ts) =
      .ident x :: qualify p chosen (.ident x :: before) ts := by
  refine qualify_token ?_
  rw [isHead, Head.ofWord?_eq_none_iff.2 h.not_head]
  rfl

/-- A field is kept, whatever its name. -/
theorem qualify_fieldTokens (before : List Token) (fields : List String) :
    qualify p chosen before (fieldTokens fields) = fieldTokens fields := by
  induction fields generalizing before with
  | nil => rfl
  | cons field fields ih =>
    rw [fieldTokens, qualify_token rfl, qualify_cons rfl, ih]

theorem qualify_group (before ts : List Token) :
    qualify p chosen before (.leftParen :: (ts ++ [.rightParen])) =
      .leftParen :: (qualify p chosen (.leftParen :: before) ts ++ [.rightParen]) := by
  rw [qualify_token rfl, qualify_append, qualify_token rfl]
  rfl

theorem qualify_containsTokens (before ts : List Token) :
    ∃ before', qualify p chosen before (containsTokens ts) =
      containsTokens (qualify p chosen before' ts) := by
  refine ⟨.leftParen :: .ident "Contains" :: .dot :: before, ?_⟩
  rw [containsTokens, qualify_token rfl, qualify_cons rfl, qualify_group]
  rfl

/-! ## Words of a path -/

/-- Words that start with a head, after which no operand starts before their end. -/
def Solid (p : String) (chosen : Nat → Bool) (words : List Token) : Prop :=
  ∃ (head : Head) (us : List Token), words = .ident head.word :: us ∧
    ∀ before, qualify p chosen (.ident head.word :: before) us = us

theorem memberTokens_eq_cons (m : Member) :
    ∃ (head : Head) (fields : List String),
      memberTokens m = .ident head.word :: fieldTokens fields := by
  cases m with
  | name owner =>
    cases owner with
    | target => exact ⟨.targetName, [], rfl⟩
    | parent => exact ⟨.parent, ["Name"], rfl⟩
  | position owner =>
    cases owner with
    | target => exact ⟨.position, [], rfl⟩
    | parent => exact ⟨.parent, ["Position"], rfl⟩
  | text owner =>
    cases owner with
    | target => exact ⟨.text, [], rfl⟩
    | parent => exact ⟨.parent, ["Text"], rfl⟩
  | siblingName axis =>
    refine ⟨.sibling axis, ["Name"], ?_⟩
    cases axis <;> rfl
  | relativeName axis =>
    refine ⟨.relative axis, ["Name"], ?_⟩
    cases axis <;> rfl

theorem solid_memberTokens (m : Member) : Solid p chosen (memberTokens m) := by
  obtain ⟨head, fields, heq⟩ := memberTokens_eq_cons m
  exact ⟨head, _, heq, fun before => qualify_fieldTokens _ fields⟩

/-- The name of an attribute is kept, also where it is the word for a head. -/
theorem qualify_attributeName (before : List Token) (name : Token) :
    qualify p chosen (.ident "Attribute" :: before) [.leftParen, name, .rightParen] =
      [.leftParen, name, .rightParen] := by
  rw [qualify_token rfl, qualify_cons rfl, qualify_token rfl]
  rfl

theorem solid_attributeTokens (owner : Owner) (name : Token) :
    Solid p chosen (attributeTokens owner name) := by
  cases owner with
  | target => exact ⟨.attributes, _, rfl, fun before => qualify_attributeName before name⟩
  | parent =>
    refine ⟨.parent, [.dot, .ident "Attribute", .leftParen, name, .rightParen], rfl, ?_⟩
    intro before
    rw [qualify_token rfl, qualify_cons rfl, qualify_attributeName]

/-! ## Derivations with a parameter -/

/-- What a derivation without a parameter becomes with one. The parameter may stand before the head
of a path, so of a path only what is after its head is qualified here. -/
def Receives (b : Bindings) (p : String) (chosen : Nat → Bool) :
    Phrase → Nat → List Token → Expr → Prop
  | .vocabulary, n, ts, e =>
    ∃ (head : Head) (us : List Token), ts = .ident head.word :: us ∧ ∀ before,
      Derives b (some p) .vocabulary n
        (.ident head.word :: qualify p chosen (.ident head.word :: before) us) e
  | ph, n, ts, e => ∀ before, Derives b (some p) ph n (qualify p chosen before ts) e

variable {b : Bindings} {n : Nat} {e : Expr}

theorem Solid.receives {words : List Token} (hw : Solid p chosen words)
    (h : ∀ before, Derives b (some p) .vocabulary n (words ++ qualify p chosen before ts) e) :
    Receives b p chosen .vocabulary n (words ++ ts) e := by
  obtain ⟨head, us, rfl, hus⟩ := hw
  refine ⟨head, us ++ ts, rfl, fun before => ?_⟩
  rw [qualify_append, hus]
  exact h _

/-- A path that starts an operand is kept, or has the parameter for its receiver. -/
theorem receives_operand {x : String} (hx : x ≠ p)
    (h : Receives b p chosen .vocabulary n (.ident x :: ts) e) :
    Receives b p chosen .operand n (.ident x :: ts) e := by
  obtain ⟨head, us, heq, hv⟩ := h
  cases heq
  intro before
  rw [qualify]
  split
  · exact .receiver rfl (hv before)
  · exact .plain (by simpa using hx.symm) (hv before)

theorem Free.of_none {x : String} (h : Free none x) (hx : x ≠ p) : Free (some p) x :=
  ⟨by simpa using hx.symm, h.not_true, h.not_false, h.not_head⟩

theorem qualify_connective (c : Connective) (before ts : List Token) :
    qualify p chosen before (c.token :: ts) =
      c.token :: qualify p chosen (c.token :: before) ts :=
  qualify_token (by cases c <;> rfl)

theorem Receives.item {c : Connective} (h : Receives b p chosen c.item n ts e)
    (before : List Token) : Derives b (some p) c.item n (qualify p chosen before ts) e := by
  cases c with
  | and => exact h before
  | or => exact h before

/-- A derivation without a parameter goes over to one with a parameter that none of its tokens
names. -/
theorem receives_of_derives {ph : Phrase} (h : Derives b none ph n ts e) (hp : .ident p ∉ ts) :
    Receives b p chosen ph n ts e := by
  -- one case for each production; what was passed before it only decides where operands start
  induction h with
  | chain hi hl ihi ihl =>
    simp only [List.mem_append, not_or] at hp
    intro before
    rw [qualify_append]
    exact .chain ((ihi hp.1).item _) (ihl hp.2 _)
  | finish => exact fun before => .finish
  | link hi hl ihi ihl =>
    simp only [List.mem_append, List.mem_cons, not_or] at hp
    intro before
    rw [qualify_connective, qualify_append]
    exact .link ((ihi hp.2.1).item _) (ihl hp.2.2 _)
  | negation h ih =>
    intro before
    rw [qualify_token rfl]
    exact .negation (ih (by simp_all) _)
  | single h ih => exact fun before => .single (ih hp before)
  | comparison hl hr ihl ihr =>
    simp only [List.mem_append, List.mem_cons, not_or] at hp
    intro before
    rw [qualify_append, qualify_token rfl]
    exact .comparison (ihl hp.1 _) (ihr hp.2.2 _)
  | group h ih =>
    simp only [List.mem_append, List.mem_cons, not_or] at hp
    intro before
    rw [qualify_group]
    exact .group (ih hp.2.1 _)
  | string s =>
    intro before
    rw [qualify_token rfl]
    exact .string s
  | integer i =>
    intro before
    rw [qualify_token rfl]
    exact .integer i
  | receiver hparameter => cases hparameter
  | truth v =>
    intro before
    rw [qualify_token (by cases v <;> rfl)]
    exact .truth v (by simpa using hp)
  | plain _ h ih =>
    simp only [List.mem_cons, Token.ident.injEq, not_or] at hp
    exact receives_operand (Ne.symm hp.1) (ih (by simpa using hp))
  | conversion hk h ih =>
    simp only [List.mem_append, List.mem_cons, Token.ident.injEq, not_or] at hp
    intro before
    rw [qualify_free (Parser.free_kind hk), qualify_group]
    exact .conversion (by simpa using hp.1) (ih hp.2.2.1 _)
  | call fields hf hk hv =>
    simp only [List.mem_cons, Token.ident.injEq, not_or] at hp
    intro before
    rw [qualify_free hf, qualify_token rfl, qualify_token rfl, qualify_fieldTokens]
    exact .call fields (hf.of_none (Ne.symm hp.1)) hk hv
  | captured fields hx hv =>
    simp only [List.mem_cons, Token.ident.injEq, not_or] at hp
    intro before
    rw [qualify_free hx, qualify_fieldTokens]
    exact .captured fields (hx.of_none (Ne.symm hp.1)) hv
  | member m =>
    rw [← List.append_nil (memberTokens m)]
    refine (solid_memberTokens m).receives fun before => ?_
    rw [qualify, List.append_nil]
    exact .member m
  | textContains h ih =>
    refine (solid_memberTokens _).receives fun before => ?_
    obtain ⟨before', heq⟩ := qualify_containsTokens (p := p) before _
    rw [heq]
    exact .textContains (ih (by simp_all [containsTokens]) before')
  | attributeText ht =>
    refine (solid_attributeTokens _ _).receives fun before => ?_
    rw [qualify_token rfl, qualify_cons rfl, qualify]
    exact .attributeText ht
  | attributeContains ht h ih =>
    refine (solid_attributeTokens _ _).receives fun before => ?_
    obtain ⟨before', heq⟩ := qualify_containsTokens (p := p) before _
    rw [heq]
    exact .attributeContains ht (ih (by simp_all [containsTokens]) before')

end Grammar

/-! ## Predicates with a header -/

namespace Parser

open Grammar

variable {b : Bindings} {finish : Nat} {lexemes : List Lexeme} {e : Expr}

theorem calls_of_parseLexemes (h : (parseLexemes b finish lexemes).result = .ok e) :
    (parseLexemes b finish lexemes).calls = e.callNodes.map Prod.fst := by
  obtain ⟨made, -, hcalls, hok⟩ := makes_parseLexemes b finish lexemes
  rw [hcalls, (hok e h).1]

/-- The lambda header is only notation. Lexemes without a header that are parsed to a tree are
parsed to the same tree, with the same calls, after a header with a parameter that none of them
names, whichever of the heads that start an operand have the parameter before them. -/
theorem parseLexemes_qualify (hb : b.Fixed) (lexemes : List Lexeme)
    (hheader : ∀ x ts, lexemes.map Lexeme.token ≠ .ident x :: .arrow :: ts)
    (he : (parseLexemes b finish lexemes).result = .ok e) (p : String)
    (hp : .ident p ∉ lexemes.map Lexeme.token) (chosen : Nat → Bool) (finish' : Nat)
    (lexemes' : List Lexeme)
    (hq : lexemes'.map Lexeme.token =
      .ident p :: .arrow :: qualify p chosen [] (lexemes.map Lexeme.token)) :
    (parseLexemes b finish' lexemes').result = .ok e ∧
      (parseLexemes b finish' lexemes').calls = (parseLexemes b finish lexemes).calls := by
  have hd : Derives b none (.chain .or) maxDepth (lexemes.map Lexeme.token) e := by
    have hpredicate := predicate_of_parseLexemes hb he
    generalize lexemes.map Lexeme.token = ts at hpredicate hheader
    cases hpredicate with
    | plain hd => exact hd
    | lambda _ => exact absurd rfl (hheader _ _)
  have he' : (parseLexemes b finish' lexemes').result = .ok e := by
    refine parseLexemes_of_predicate ?_
    rw [hq]
    exact .lambda (receives_of_derives hd hp [])
  exact ⟨he', by rw [calls_of_parseLexemes he', calls_of_parseLexemes he]⟩

/-- The tokens of `Attribute(Text).Text == f() || Text`, where one of the two heads that start an
operand gets the parameter. The name of the attribute is a variable of the caller. -/
theorem parseLexemes_qualify_attribute :
    (Expr.parse "e => e.Attribute(Text).Text == f() || Text"
        ⟨[("Text", .string "id")], [("f", fun _ => .int 4)]⟩).result =
      .ok (.or (.eq (.path (.attributeText ⟨.target, "id"⟩)) (.call "f" (.int 4)))
        (.path (.member (.text .target)))) ∧
    (Expr.parse "e => e.Attribute(Text).Text == f() || Text"
        ⟨[("Text", .string "id")], [("f", fun _ => .int 4)]⟩).calls = ["f"] := by
  have htokens : Token.tokenize "e => e.Attribute(Text).Text == f() || Text".toList =
      .ok [⟨.ident "e", 0⟩, ⟨.arrow, 2⟩, ⟨.ident "e", 5⟩, ⟨.dot, 6⟩, ⟨.ident "Attribute", 7⟩,
        ⟨.leftParen, 16⟩, ⟨.ident "Text", 17⟩, ⟨.rightParen, 21⟩, ⟨.dot, 22⟩, ⟨.ident "Text", 23⟩,
        ⟨.equals, 28⟩, ⟨.ident "f", 31⟩, ⟨.leftParen, 32⟩, ⟨.rightParen, 33⟩, ⟨.disj, 35⟩,
        ⟨.ident "Text", 38⟩] := by
    cbv
  have he : (parseLexemes ⟨[("Text", .string "id")], [("f", fun _ => .int 4)]⟩ 35
      [⟨.ident "Attribute", 0⟩, ⟨.leftParen, 9⟩, ⟨.ident "Text", 10⟩, ⟨.rightParen, 14⟩,
        ⟨.dot, 15⟩, ⟨.ident "Text", 16⟩, ⟨.equals, 21⟩, ⟨.ident "f", 24⟩, ⟨.leftParen, 25⟩,
        ⟨.rightParen, 26⟩, ⟨.disj, 28⟩, ⟨.ident "Text", 31⟩]).result =
      .ok (.or (.eq (.path (.attributeText ⟨.target, "id"⟩)) (.call "f" (.int 4)))
        (.path (.member (.text .target)))) := by
    cbv
  unfold Expr.parse parseChars
  rw [htokens]
  refine And.imp_right (fun h => h.trans (calls_of_parseLexemes he)) (parseLexemes_qualify
    (Bindings.fixed_singleton _ _ _) _ ?_ he "e" ?_ (· != 11) _ _ ?_)
  · simp
  · simp
  · rfl

end Parser

end ElementQuery
