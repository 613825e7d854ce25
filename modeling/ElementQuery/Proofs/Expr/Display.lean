/-
The text of a tree and its tokens. Chain links that are pending around a text can be closed one by
one, so a tree is written as by plain recursion; and the text of a printable tree is cut into the
tokens that the grammar has for the tree, with no two neighbours grown together.

A tree is printable if its strings need no escape, its names are those that the grammar leaves to
the caller and are bound to what the tree says of them, and it has no comparison where the grammar
has no room for it.
-/
import ElementQuery.Expr.Display
import ElementQuery.Proofs.Grammar.Basic
import ElementQuery.Proofs.Token.Lexes

namespace ElementQuery

open Grammar Token

namespace Expr

/-! ## Pending links -/

theorem enclose_nil (text : String) : enclose [] text = text := by
  simp [enclose]

/-- The innermost pending link closes around the text. -/
theorem enclose_cons (link : String) (pending : List String) (text : String) :
    enclose (link :: pending) text = enclose pending ("(" ++ text ++ link) := by
  unfold enclose
  rw [List.length_cons, List.replicate_succ', String.ofList_append, String.join_cons]
  simp only [String.append_assoc]

/-- Inside pending links a tree is written as by plain recursion. -/
theorem displayIn_eq_enclose (e : Expr) :
    ∀ pending, displayIn pending e = enclose pending e.displayPlain := by
  induction e with
  | and l r ihl ihr =>
    intro pending
    rw [displayIn, ihl, ihr, enclose_nil, enclose_cons, displayPlain]
    simp only [String.append_assoc]
  | or l r ihl ihr =>
    intro pending
    rw [displayIn, ihl, ihr, enclose_nil, enclose_cons, displayPlain]
    simp only [String.append_assoc]
  | not e ih => intro pending; rw [displayIn, ih, enclose_nil, displayPlain]
  | eq l r ihl ihr => intro pending; rw [displayIn, ihl, ihr, enclose_nil, enclose_nil, displayPlain]
  | contains p e ih => intro pending; rw [displayIn, ih, enclose_nil, displayPlain]
  | literal l => exact fun _ => rfl
  | path p => exact fun _ => rfl
  | captured x v => exact fun _ => rfl
  | call f v => exact fun _ => rfl
  | member e f ih => intro pending; rw [displayIn, ih, enclose_nil, displayPlain]
  | convert k e ih => intro pending; rw [displayIn, ih, enclose_nil, displayPlain]

/-- The text written along the left side of a chain, its parentheses first and its right-hand sides
on the way back, is the text of plain recursion, whatever conjunctions and disjunctions are mixed in
the tree and wherever they stand. -/
theorem display_eq_displayPlain (e : Expr) : e.display = e.displayPlain := by
  rw [display, displayIn_eq_enclose, enclose_nil]

end Expr

/-! ## Tokens -/

/-- The token of a literal. -/
def Literal.token : Literal → Token
  | bool v => .ident (Literal.bool v).text
  | int i => .int i
  | str s => .str s

namespace Path

/-- The words that name a path. -/
def tokens : Path → List Token
  | member m => memberTokens m
  | attributeText a => attributeTokens a.owner (.str a.name) ++ [.dot, .ident "Text"]

/-- The words for the subject of a containment test. -/
def subjectTokens : Path → List Token
  | member m => memberTokens m
  | attributeText a => attributeTokens a.owner (.str a.name)

/-- A path whose attribute name needs no escape. -/
def Printable : Path → Prop
  | member _ => True
  | attributeText a => Plain a.name

/-- A path that a containment test can be on: an attribute, or the text of an element. -/
def IsSubject : Path → Prop
  | member (.text _) => True
  | attributeText _ => True
  | _ => False

end Path

namespace Expr

/-- The tokens of a displayed tree. -/
def tokens : Expr → List Token
  | and l r => .leftParen :: (l.tokens ++ .conj :: (r.tokens ++ [.rightParen]))
  | or l r => .leftParen :: (l.tokens ++ .disj :: (r.tokens ++ [.rightParen]))
  | not e => .bang :: e.tokens
  | eq l r => l.tokens ++ .equals :: r.tokens
  | contains p e => p.subjectTokens ++ containsTokens e.tokens
  | literal l => [l.token]
  | path p => p.tokens
  | captured x _ => [.ident x]
  | call f _ => [.ident f, .leftParen, .rightParen]
  | member e f => e.tokens ++ [.dot, .ident f]
  | convert k e => .ident k.word :: .leftParen :: (e.tokens ++ [.rightParen])

/-- A tree that is no comparison and no negation, so it can be compared. -/
def IsOperand : Expr → Prop
  | eq _ _ => False
  | not _ => False
  | _ => True

/-- A value of the caller, or a field read from one. -/
def IsOwn : Expr → Prop
  | captured _ _ => True
  | call _ _ => True
  | member _ _ => True
  | _ => False

/-- A tree whose text says all of it to a parser with these bindings. -/
inductive Printable (b : Bindings) : Expr → Prop
  | and {l r : Expr} : Printable b l → Printable b r → Printable b (and l r)
  | or {l r : Expr} : Printable b l → Printable b r → Printable b (or l r)
  | not {e : Expr} : Printable b e → Printable b (not e)
  | eq {l r : Expr} : l.IsOperand → r.IsOperand → Printable b l → Printable b r →
      Printable b (eq l r)
  | contains {p : Path} {e : Expr} : p.IsSubject → p.Printable → Printable b e →
      Printable b (contains p e)
  | truth (v : Bool) : Printable b (literal (.bool v))
  | integer (i : Int64) : Printable b (literal (.int i))
  | string {s : String} : Plain s → Printable b (literal (.str s))
  | path {p : Path} : p.Printable → Printable b (path p)
  | captured {x : String} {v : Json.Value} : IsIdentifier x → Free none x →
      b.value? x = some v → Printable b (captured x v)
  | call {f : String} {v : Json.Value} : IsIdentifier f → Free none f →
      (∀ k : LiteralKind, f ≠ k.word) → b.Returns f v → Printable b (call f v)
  | member {e : Expr} {f : String} : e.IsOwn → IsIdentifier f → Printable b e →
      Printable b (member e f)
  | convert {k : LiteralKind} {e : Expr} : Printable b e → Printable b (convert k e)

end Expr

/-! ## Lexemes of a displayed tree -/

/-- A text is cut into the given tokens before every text of lexemes that does not go on with it. -/
def Cuts (text : String) (us : List Token) : Prop :=
  ∀ rest ts, Separate rest ts → Lexes (text.toList ++ rest) (us ++ ts)

theorem cuts_identifier {x : String} (hx : IsIdentifier x) : Cuts x [.ident x] :=
  fun _ _ => lexes_identifier hx

theorem cuts_dotted {x y : String} {us : List Token} (hx : Cuts x us) (hy : IsIdentifier y) :
    Cuts (x ++ "." ++ y) (us ++ [.dot, .ident y]) := by
  intro rest ts h
  have hdot := separate_operator (t := .dot) (by decide) (lexes_identifier hy h)
  simp only [String.toList_append, List.append_assoc]
  exact hx _ _ hdot

theorem cuts_string {s : String} (hs : Plain s) : Cuts ("\"" ++ s ++ "\"") [.str s] := by
  intro rest ts h
  simp only [String.toList_append, List.append_assoc]
  exact lexes_string hs h.lexes

/-- A text in parentheses, after a text that they do not go on with. -/
theorem cuts_applied {x y : String} {us vs : List Token} (hx : Cuts x us) (hy : Cuts y vs) :
    Cuts (x ++ "(" ++ y ++ ")") (us ++ .leftParen :: (vs ++ [.rightParen])) := by
  intro rest ts h
  have hclose := separate_operator (t := .rightParen) (by decide) h.lexes
  have hopen := separate_operator (t := .leftParen) (by decide) (hy _ _ hclose)
  simp only [String.toList_append, List.append_assoc, List.cons_append, List.nil_append]
  exact hx _ _ hopen

/-- Two texts in parentheses with an operator between them. -/
theorem cuts_joined {x y : String} {us vs : List Token} {t : Token} (ht : t ∈ operators)
    (hx : Cuts x us) (hy : Cuts y vs) :
    Cuts ("(" ++ x ++ (" " ++ t.display ++ " ") ++ y ++ ")")
      (.leftParen :: (us ++ t :: (vs ++ [.rightParen]))) := by
  intro rest ts h
  have hclose := separate_operator (t := .rightParen) (by decide) h.lexes
  have hlink := separate_spaced ht (hy _ _ hclose)
  have hopen := lexes_operator (t := .leftParen) (by decide) (hx _ _ hlink)
  simp only [String.toList_append, List.append_assoc, List.cons_append, List.nil_append] at hopen ⊢
  exact hopen

theorem Member.cuts_word (m : Member) : Cuts m.word (memberTokens m) := by
  have one (x : String) (hx : IsIdentifier x) := cuts_identifier hx
  have two (x y : String) (hx : IsIdentifier x) (hy : IsIdentifier y) :=
    cuts_dotted (cuts_identifier hx) hy
  cases m with
  | name owner =>
    cases owner with
    | target => exact one "TargetElementName" (by decide)
    | parent => exact two "Parent" "Name" (by decide) (by decide)
  | position owner =>
    cases owner with
    | target => exact one "Position" (by decide)
    | parent => exact two "Parent" "Position" (by decide) (by decide)
  | text owner =>
    cases owner with
    | target => exact one "Text" (by decide)
    | parent => exact two "Parent" "Text" (by decide) (by decide)
  | siblingName axis =>
    cases axis with
    | following => exact two "FollowingSibling" "Name" (by decide) (by decide)
    | preceding => exact two "PrecedingSibling" "Name" (by decide) (by decide)
  | relativeName axis =>
    cases axis with
    | descendant => exact two "Descendant" "Name" (by decide) (by decide)
    | ancestor => exact two "Ancestor" "Name" (by decide) (by decide)

theorem AttributeRef.cuts_display {a : AttributeRef} (ha : Plain a.name) :
    Cuts a.display (attributeTokens a.owner (.str a.name)) := by
  obtain ⟨owner, name⟩ := a
  have hword : Cuts (owner.receiver ++ "Attribute") (ownerTokens owner ++ [.ident "Attribute"]) := by
    cases owner with
    | target => exact cuts_identifier (x := "Attribute") (by decide)
    | parent =>
      have hreceiver : Owner.receiver .parent = "Parent" ++ "." := rfl
      rw [hreceiver]
      exact cuts_dotted (cuts_identifier (by decide)) (by decide)
  have hcall : "Attribute(\"" = "Attribute" ++ "(" ++ "\"" := rfl
  have hclose : "\")" = "\"" ++ ")" := rfl
  have := cuts_applied hword (cuts_string ha)
  simpa only [AttributeRef.display, attributeTokens, hcall, hclose, String.append_assoc,
    List.append_assoc, List.cons_append, List.nil_append] using this

theorem Path.cuts_display {p : Path} (hp : p.Printable) : Cuts p.display p.tokens := by
  cases p with
  | member m => exact m.cuts_word
  | attributeText a =>
    have htext : ".Text" = "." ++ "Text" := rfl
    rw [Path.display, htext, ← String.append_assoc]
    exact cuts_dotted (AttributeRef.cuts_display hp) (by decide)

namespace Expr

theorem cuts_containsText {p : Path} (hp : p.Printable) {text : String} {us : List Token}
    (h : Cuts text us) : Cuts (containsText p text) (p.subjectTokens ++ containsTokens us) := by
  have hcall : ".Contains(" = "." ++ "Contains" ++ "(" := rfl
  -- the subject is written differently in the two cases, the call after it is the same
  have happlied {x : String} {vs : List Token} (hx : Cuts x vs) :
      Cuts (x ++ ".Contains(" ++ text ++ ")") (vs ++ containsTokens us) := by
    have := cuts_applied (cuts_dotted hx (y := "Contains") (by decide)) h
    simpa only [hcall, containsTokens, String.append_assoc, List.append_assoc, List.cons_append,
      List.nil_append] using this
  cases p with
  | member m => exact happlied m.cuts_word
  | attributeText a => exact happlied (AttributeRef.cuts_display hp)

/-- The text of a printable tree is cut into the tokens of the tree. -/
theorem cuts_displayPlain {b : Bindings} {e : Expr} (he : Printable b e) :
    Cuts e.displayPlain e.tokens := by
  induction he with
  | and hl hr ihl ihr => exact cuts_joined (t := .conj) (by decide) ihl ihr
  | or hl hr ihl ihr => exact cuts_joined (t := .disj) (by decide) ihl ihr
  | @not e he ih =>
    -- no operator goes on with a bang, so the operand needs no parentheses
    intro rest ts h
    simp only [displayPlain, tokens, String.toList_append, List.append_assoc, List.cons_append]
    exact lexes_operator (t := .bang) (by decide) (ih _ _ h)
  | @eq l r _ _ hl hr ihl ihr =>
    intro rest ts h
    have hlink := separate_spaced (t := .equals) (by decide) (ihr _ _ h)
    simp only [displayPlain, tokens, String.toList_append, List.append_assoc, List.cons_append]
    exact ihl _ _ hlink
  | contains hs hp he ih => exact cuts_containsText hp ih
  | truth v =>
    cases v with
    | false => exact cuts_identifier (x := "false") (by decide)
    | true => exact cuts_identifier (x := "true") (by decide)
  | integer i => exact fun _ _ => lexes_integer i
  | string hs => exact cuts_string hs
  | path hp => exact Path.cuts_display hp
  | captured hx => exact cuts_identifier hx
  | @call f v hf =>
    intro rest ts h
    have hclose := lexes_operator (t := .rightParen) (by decide) h.lexes
    have hopen := separate_operator (t := .leftParen) (by decide) hclose
    simp only [displayPlain, tokens, String.toList_append, List.append_assoc]
    exact lexes_identifier hf hopen
  | member hown hf he ih => exact cuts_dotted ih hf
  | @convert k e he ih =>
    have hk : IsIdentifier k.word := by cases k <;> decide
    exact cuts_applied (cuts_identifier hk) ih

end Expr

end ElementQuery
