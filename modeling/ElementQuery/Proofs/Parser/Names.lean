/-
The bindings that a predicate text depends on. Two bindings that agree on every name that the
tokens of a text can look up give the same tree with the same calls, or the same error.

So words of the language cannot be taken over by the caller: a function with the name of such a
word or of a conversion changes nothing, and a variable with such a name does only where it stands
as the name of an attribute, the one place where the words of the language do not come first.
-/
import ElementQuery.Proofs.Parser.Runs

namespace ElementQuery

open Grammar (Free)

/-! ## The same places -/

theorem Error.Moved.eq {e e' : Error} (h : e.Moved Eq e') : e = e' := by
  cases h with
  | parse fault h => rw [h]
  | operand name h => rw [h]
  | function name => rfl
  | attributeName name => rfl

namespace Parser

theorem Parsed.Moved.eq {parsed parsed' : Parsed} (h : parsed.Moved Eq parsed') :
    parsed = parsed' := by
  cases h with
  | ok e calls => rfl
  | error calls he => rw [he.eq]

/-! ## Two bindings -/

theorem parseLexemes_eq_of_agreeOn {b b' : Bindings} {lexemes : List Lexeme}
    (h : b.AgreeOn b' (header lexemes).1 (lexemes.map Lexeme.token)) (finish : Nat) :
    parseLexemes b finish lexemes = parseLexemes b' finish lexemes := by
  by_cases hne : lexemes = []
  · subst hne
    rfl
  · refine (parseLexemes_moved ?_ h hne finish finish rfl).eq
    exact List.forall₂_same.2 fun _ _ => ⟨rfl, rfl⟩

end Parser

/-! ## Words of the language -/

namespace Bindings

variable (b : Bindings) {parameter : Option String} {ts : List Token} {w : String}

theorem agreeOn_bindFunction (hw : (∃ k : LiteralKind, w = k.word) ∨ ¬ Free parameter w)
    (f : Function) : (b.bindFunction w f).AgreeOn b parameter ts where
  attributeNames _ _ := rfl
  values _ _ _ := rfl
  functions x _ hfree hword := by
    have hne : x ≠ w := by
      rintro rfl
      rcases hw with ⟨k, rfl⟩ | hw
      · exact hword k rfl
      · exact hw hfree
    rw [function?_bindFunction, if_neg hne]

theorem agreeOn_bind (hw : ¬ Token.Bare w ts ∨ ¬ Free parameter w)
    (hattribute : ¬ [.ident "Attribute", .leftParen, .ident w] <:+: ts) (v : Json.Value) :
    (b.bind w v).AgreeOn b parameter ts where
  attributeNames x hx := by
    have hne : x ≠ w := by
      rintro rfl
      exact hattribute hx
    rw [value?_bind, if_neg hne]
  values x hbare hfree := by
    have hne : x ≠ w := by
      rintro rfl
      exact hw.elim (fun h => h hbare) fun h => h hfree
    rw [value?_bind, if_neg hne]
  functions _ _ _ _ := rfl

end Bindings

namespace Expr

theorem parse_eq_of_tokenize {source : String} {b b' : Bindings}
    (h : ∀ lexemes, Token.tokenize source.toList = .ok lexemes →
      b.AgreeOn b' (Parser.header lexemes).1 (lexemes.map Lexeme.token)) :
    parse source b = parse source b' := by
  unfold parse Parser.parseChars
  cases htokens : Token.tokenize source.toList with
  | ok lexemes => exact Parser.parseLexemes_eq_of_agreeOn (h lexemes htokens) _
  | error e => rfl

/-- Parsing depends only on the bindings that the text can name: bindings that agree on the names
that the tokens of a text can look up give the same result with the same calls. Hence a function
named like a word of the language or a conversion is never called, and a variable named like a word
of the language, or one whose name only stands before parentheses, is never read, unless its name
stands as the name of an attribute. -/
theorem parse_eq_of_agreeOn (source : String) :
    (∀ b b' : Bindings,
      (∀ lexemes, Token.tokenize source.toList = .ok lexemes →
        b.AgreeOn b' (Parser.header lexemes).1 (lexemes.map Lexeme.token)) →
      parse source b = parse source b') ∧
    ∀ lexemes, Token.tokenize source.toList = .ok lexemes → ∀ (b : Bindings) (w : String),
      ((∃ k : LiteralKind, w = k.word) ∨ ¬ Free (Parser.header lexemes).1 w →
        ∀ f, parse source (b.bindFunction w f) = parse source b) ∧
      (¬ Token.Bare w (lexemes.map Lexeme.token) ∨ ¬ Free (Parser.header lexemes).1 w →
        ¬ [.ident "Attribute", .leftParen, .ident w] <:+: lexemes.map Lexeme.token →
        ∀ v, parse source (b.bind w v) = parse source b) := by
  refine ⟨fun b b' h => parse_eq_of_tokenize h, ?_⟩
  intro lexemes htokens b w
  constructor
  · intro hw f
    refine parse_eq_of_tokenize fun lexemes' htokens' => ?_
    cases htokens.symm.trans htokens'
    exact b.agreeOn_bindFunction hw f
  · intro hw hattribute v
    refine parse_eq_of_tokenize fun lexemes' htokens' => ?_
    cases htokens.symm.trans htokens'
    exact b.agreeOn_bind hw hattribute v

/-- The parameter, a word of the vocabulary and a conversion keep their meaning under a variable or
a function of the same name. -/
theorem parse_eq_of_agreeOn_shadowed :
    Bindings.AgreeOn ⟨[("n", .int 5)], []⟩
        ⟨[("n", .int 5), ("e", .null), ("Text", .null)], [("int", fun _ => .null)]⟩ (some "e")
        [.ident "e", .arrow, .ident "int", .leftParen, .ident "n", .rightParen, .equals, .ident "e",
          .dot, .ident "Text"] ∧
      parse "e => int(n) == e.Text" ⟨[("n", .int 5)], []⟩ =
        parse "e => int(n) == e.Text"
          ⟨[("n", .int 5), ("e", .null), ("Text", .null)], [("int", fun _ => .null)]⟩ := by
  have hagree : Bindings.AgreeOn ⟨[("n", .int 5)], []⟩
      ⟨[("n", .int 5), ("e", .null), ("Text", .null)], [("int", fun _ => .null)]⟩ (some "e")
      [.ident "e", .arrow, .ident "int", .leftParen, .ident "n", .rightParen, .equals, .ident "e",
        .dot, .ident "Text"] := by
    have hname {x : String} (hx : Token.ident x ∈ [.ident "e", .arrow, .ident "int", .leftParen,
          .ident "n", .rightParen, .equals, .ident "e", .dot, .ident "Text"])
        (hfree : Free (some "e") x) : x = "int" ∨ x = "n" := by
      have hparameter : x ≠ "e" := fun h => hfree.not_parameter (h ▸ rfl)
      have htext := hfree.not_head .text
      simp_all [Head.word]
    refine ⟨fun x hx => ?_, fun x hx hfree => ?_, fun x hx hfree hword => ?_⟩
    · have := hx.subset (List.mem_cons_self ..)
      simp at this
    · obtain ⟨before, after, hts, -⟩ := hx
      rcases hname (by simp [hts]) hfree with rfl | rfl <;> rfl
    · rcases hname (hx.subset (List.mem_cons_self ..)) hfree with rfl | rfl
      · exact absurd rfl (hword .int)
      · rfl
  have htokens : Token.tokenize "e => int(n) == e.Text".toList =
      .ok [⟨.ident "e", 0⟩, ⟨.arrow, 2⟩, ⟨.ident "int", 5⟩, ⟨.leftParen, 8⟩, ⟨.ident "n", 9⟩,
        ⟨.rightParen, 10⟩, ⟨.equals, 12⟩, ⟨.ident "e", 15⟩, ⟨.dot, 16⟩, ⟨.ident "Text", 17⟩] := by
    cbv
  refine ⟨hagree, (parse_eq_of_agreeOn _).1 _ _ fun lexemes hl => ?_⟩
  cases htokens.symm.trans hl
  exact hagree

end Expr

end ElementQuery
