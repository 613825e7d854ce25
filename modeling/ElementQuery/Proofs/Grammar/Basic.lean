/-
The grammar of predicate text as a relation between phrases, tokens and trees. A derivation names
the tree that its tokens stand for, and an index bounds how deep its unary phrases stand in one
another: parentheses, negations and arguments each open one level.

The grammar says what the names of a text may be. The parameter of the lambda header only stands
before a path of the vocabulary; the words for truth values, the heads of the vocabulary and the
conversions, in this order, take a name away from the caller.
-/
import ElementQuery.Parser.Predicate

namespace ElementQuery

/-- A function of the caller that returns the same value whatever was called before it. -/
def Bindings.Returns (b : Bindings) (name : String) (v : Json.Value) : Prop :=
  ∃ f, b.function? name = some f ∧ ∀ calls, f calls = v

/-- Every function of the caller returns a fixed value. -/
def Bindings.Fixed (b : Bindings) : Prop :=
  ∀ name f, b.function? name = some f → ∃ v, b.Returns name v

theorem Bindings.fixed_singleton (values : List (String × Json.Value)) (name : String)
    (v : Json.Value) : Fixed ⟨values, [(name, fun _ => v)]⟩ := by
  intro x f hf
  refine ⟨v, f, hf, fun calls => ?_⟩
  rw [function?, List.lookup_cons] at hf
  split at hf
  · cases hf
    rfl
  · cases hf

namespace Grammar

/-! ## Words of the vocabulary -/

/-- The words that stand before a property of an owner. -/
def ownerTokens : Owner → List Token
  | .target => []
  | .parent => [.ident "Parent", .dot]

/-- The words that name a member. -/
def memberTokens : Member → List Token
  | .name .target => [.ident "TargetElementName"]
  | .name .parent => [.ident "Parent", .dot, .ident "Name"]
  | .position owner => ownerTokens owner ++ [.ident "Position"]
  | .text owner => ownerTokens owner ++ [.ident "Text"]
  | .siblingName .following => [.ident "FollowingSibling", .dot, .ident "Name"]
  | .siblingName .preceding => [.ident "PrecedingSibling", .dot, .ident "Name"]
  | .relativeName .descendant => [.ident "Descendant", .dot, .ident "Name"]
  | .relativeName .ancestor => [.ident "Ancestor", .dot, .ident "Name"]

/-- The words that name an attribute by a token in parentheses. -/
def attributeTokens (owner : Owner) (name : Token) : List Token :=
  ownerTokens owner ++ [.ident "Attribute", .leftParen, name, .rightParen]

/-- A containment test with an argument, after the words for its subject. -/
def containsTokens (argument : List Token) : List Token :=
  .dot :: .ident "Contains" :: .leftParen :: (argument ++ [.rightParen])

/-- A token that gives the name of an attribute: a string, or a variable bound to one. -/
inductive AttributeName (b : Bindings) : Token → String → Prop
  | quoted (s : String) : AttributeName b (.str s) s
  | bound {x s : String} : b.value? x = some (.string s) → AttributeName b (.ident x) s

/-! ## Names of the caller -/

/-- A name that is left to the caller: it is not the parameter, and no other form starts with
it. -/
structure Free (parameter : Option String) (x : String) : Prop where
  not_parameter : parameter ≠ some x
  not_true : x ≠ "true"
  not_false : x ≠ "false"
  not_head : ∀ h : Head, x ≠ h.word

/-- Fields read from a value, one after another. -/
def fieldTokens : List String → List Token
  | [] => []
  | field :: fields => .dot :: .ident field :: fieldTokens fields

/-! ## Phrases -/

/-- The connectives, which join conditions to the left. -/
inductive Connective where
  | and
  | or
  deriving DecidableEq

/-- The operator of a connective. -/
def Connective.token : Connective → Token
  | and => .conj
  | or => .disj

/-- The node of a connective. -/
def Connective.join : Connective → Expr → Expr → Expr
  | and => .and
  | or => .or

/-- The phrases of predicate text. -/
inductive Phrase where
  /-- Conditions joined by a connective. -/
  | chain (c : Connective)
  /-- Further conditions of a chain, after those already joined. -/
  | links (c : Connective) (left : Expr)
  | unary
  | operand
  | vocabulary

/-- What a connective joins: conjunctions by "or", negations and comparisons by "and". -/
def Connective.item : Connective → Phrase
  | and => .unary
  | or => .chain .and

variable (b : Bindings) (parameter : Option String)

/-- A phrase of at most `n` levels of nesting, the tokens that it takes and the tree that they
stand for. -/
inductive Derives : Phrase → Nat → List Token → Expr → Prop
  | chain {c : Connective} {n : Nat} {ts us : List Token} {l e : Expr} :
      Derives c.item n ts l → Derives (.links c l) n us e → Derives (.chain c) n (ts ++ us) e
  | finish {c : Connective} {n : Nat} {l : Expr} : Derives (.links c l) n [] l
  | link {c : Connective} {n : Nat} {ts us : List Token} {l r e : Expr} :
      Derives c.item n ts r → Derives (.links c (c.join l r)) n us e →
      Derives (.links c l) n (c.token :: (ts ++ us)) e
  | negation {n : Nat} {ts : List Token} {e : Expr} :
      Derives .unary n ts e → Derives .unary (n + 1) (.bang :: ts) (.not e)
  | single {n : Nat} {ts : List Token} {e : Expr} :
      Derives .operand n ts e → Derives .unary (n + 1) ts e
  | comparison {n : Nat} {ts us : List Token} {l r : Expr} :
      Derives .operand n ts l → Derives .operand n us r →
      Derives .unary (n + 1) (ts ++ .equals :: us) (.eq l r)
  | group {n : Nat} {ts : List Token} {e : Expr} :
      Derives (.chain .or) n ts e → Derives .operand n (.leftParen :: (ts ++ [.rightParen])) e
  | string {n : Nat} (s : String) : Derives .operand n [.str s] (.literal (.str s))
  | integer {n : Nat} (i : Int64) : Derives .operand n [.int i] (.literal (.int i))
  | receiver {n : Nat} {p : String} {ts : List Token} {e : Expr} :
      parameter = some p → Derives .vocabulary n ts e → Derives .operand n (.ident p :: .dot :: ts) e
  | truth {n : Nat} (v : Bool) : parameter ≠ some (Literal.bool v).text →
      Derives .operand n [.ident (Literal.bool v).text] (.literal (.bool v))
  | plain {n : Nat} {x : String} {ts : List Token} {e : Expr} :
      parameter ≠ some x → Derives .vocabulary n (.ident x :: ts) e →
      Derives .operand n (.ident x :: ts) e
  | conversion {n : Nat} {k : LiteralKind} {ts : List Token} {e : Expr} :
      parameter ≠ some k.word → Derives (.chain .or) n ts e →
      Derives .operand n (.ident k.word :: .leftParen :: (ts ++ [.rightParen])) (.convert k e)
  | call {n : Nat} {f : String} {v : Json.Value} (fields : List String) :
      Free parameter f → (∀ k : LiteralKind, f ≠ k.word) → b.Returns f v →
      Derives .operand n (.ident f :: .leftParen :: .rightParen :: fieldTokens fields)
        (fields.foldl .member (.call f v))
  | captured {n : Nat} {x : String} {v : Json.Value} (fields : List String) :
      Free parameter x → b.value? x = some v →
      Derives .operand n (.ident x :: fieldTokens fields) (fields.foldl .member (.captured x v))
  | member {n : Nat} (m : Member) : Derives .vocabulary n (memberTokens m) (.path (.member m))
  | textContains {n : Nat} {owner : Owner} {ts : List Token} {e : Expr} :
      Derives (.chain .or) n ts e →
      Derives .vocabulary n (memberTokens (.text owner) ++ containsTokens ts)
        (.contains (.member (.text owner)) e)
  | attributeText {n : Nat} {owner : Owner} {t : Token} {name : String} :
      AttributeName b t name →
      Derives .vocabulary n (attributeTokens owner t ++ [.dot, .ident "Text"])
        (.path (.attributeText ⟨owner, name⟩))
  | attributeContains {n : Nat} {owner : Owner} {t : Token} {name : String} {ts : List Token}
      {e : Expr} :
      AttributeName b t name → Derives (.chain .or) n ts e →
      Derives .vocabulary n (attributeTokens owner t ++ containsTokens ts)
        (.contains (.attributeText ⟨owner, name⟩) e)

/-- A whole predicate, with or without a lambda header. -/
inductive Predicate : List Token → Expr → Prop
  | plain {ts : List Token} {e : Expr} :
      Derives b none (.chain .or) Parser.maxDepth ts e → Predicate ts e
  | lambda {p : String} {ts : List Token} {e : Expr} :
      Derives b (some p) (.chain .or) Parser.maxDepth ts e → Predicate (.ident p :: .arrow :: ts) e

/-! ## Tokens of a derivation -/

variable {b parameter} {n : Nat} {ts : List Token} {e : Expr}

/-- An operand takes at least one token, and its first token is no negation. -/
theorem Derives.operand_cons (h : Derives b parameter .operand n ts e) :
    ∃ t us, ts = t :: us ∧ t ≠ .bang := by
  cases h <;> exact ⟨_, _, rfl, by simp⟩

/-- The further links of a chain are none or start with its operator. -/
theorem Derives.head?_links {c : Connective} {left : Expr}
    (h : Derives b parameter (.links c left) n ts e) : ∀ t ∈ ts.head?, t = c.token := by
  cases h with
  | finish => simp
  | link => simp

theorem Derives.unary_ne_nil (h : Derives b parameter .unary n ts e) : ts ≠ [] := by
  cases h with
  | negation => simp
  | single h =>
    obtain ⟨t, us, rfl, -⟩ := h.operand_cons
    simp
  | comparison => simp

theorem Derives.chain_ne_nil {c : Connective} (h : Derives b parameter (.chain c) n ts e) :
    ts ≠ [] := by
  have happend {ts us : List Token} (ht : ts ≠ []) : ts ++ us ≠ [] := by simp [ht]
  have hand {ts : List Token} {e : Expr} (h : Derives b parameter (.chain .and) n ts e) :
      ts ≠ [] := by
    cases h with
    | chain hi hl => exact happend hi.unary_ne_nil
  cases c with
  | and => exact hand h
  | or =>
    cases h with
    | chain hi hl => exact happend (hand hi)

theorem arrow_notMem_fieldTokens (fields : List String) : .arrow ∉ fieldTokens fields := by
  induction fields with
  | nil => simp [fieldTokens]
  | cons field fields ih => simp [fieldTokens, ih]

theorem arrow_notMem_ownerTokens (owner : Owner) : .arrow ∉ ownerTokens owner := by
  cases owner <;> simp [ownerTokens]

theorem arrow_notMem_memberTokens (m : Member) : .arrow ∉ memberTokens m := by
  cases m with
  | name owner => cases owner <;> simp [memberTokens]
  | position owner => simp [memberTokens, arrow_notMem_ownerTokens]
  | text owner => simp [memberTokens, arrow_notMem_ownerTokens]
  | siblingName axis => cases axis <;> simp [memberTokens]
  | relativeName axis => cases axis <;> simp [memberTokens]

theorem AttributeName.ne_arrow {t : Token} {name : String} (h : AttributeName b t name) :
    Token.arrow ≠ t := by
  cases h <;> simp

/-- The arrow stands in a lambda header and nowhere else. -/
theorem Derives.arrow_notMem {ph : Phrase} (h : Derives b parameter ph n ts e) : .arrow ∉ ts := by
  induction h with
  | @link c n ts us l r e hi hl ihi ihl => cases c <;> simp [Connective.token, ihi, ihl]
  | call fields => simpa using arrow_notMem_fieldTokens fields
  | captured fields => simpa using arrow_notMem_fieldTokens fields
  | member m => exact arrow_notMem_memberTokens m
  | textContains => simp_all [arrow_notMem_memberTokens, containsTokens]
  | attributeText ht =>
    simp [attributeTokens, arrow_notMem_ownerTokens, ht.ne_arrow]
  | attributeContains ht =>
    simp_all [attributeTokens, arrow_notMem_ownerTokens, ht.ne_arrow, containsTokens]
  | _ => simp_all

end Grammar

end ElementQuery
