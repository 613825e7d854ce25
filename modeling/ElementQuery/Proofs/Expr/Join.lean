/-
Conditions joined by their texts. Texts in parentheses with a connective between them are parsed to
the trees of the texts, joined to the left, so texts joined by "and" give the conjunction of their
trees, however many there are: the levels of nesting of one condition are free again for the next.

The tokens of a text are still its tokens where another text follows. A text that is parsed alone
and in parentheses is one phrase in parentheses: the tokens of a disjunction end where its closing
parenthesis stands, whatever follows it.
-/
import ElementQuery.Expr.XPath
import ElementQuery.Proofs.Expr.RoundTrip
import ElementQuery.Proofs.Token.Append

namespace ElementQuery

namespace Grammar

/-! ## Disjunctions in parentheses -/

variable {b : Bindings} {parameter : Option String} {n m : Nat} {ts us : List Token} {e e' : Expr}

/-- A phrase stays one where deeper nesting is allowed. -/
theorem Derives.mono {ph : Phrase} (h : Derives b parameter ph n ts e) (hm : n ≤ m) :
    Derives b parameter ph m ts e := by
  induction h generalizing m with
  | chain hi hl ihi ihl => exact .chain (ihi hm) (ihl hm)
  | finish => exact .finish
  | link hi hl ihi ihl => exact .link (ihi hm) (ihl hm)
  | negation h ih =>
    obtain ⟨k, rfl⟩ := Nat.exists_eq_add_of_lt hm
    exact .negation (ih (by omega))
  | single h ih =>
    obtain ⟨k, rfl⟩ := Nat.exists_eq_add_of_lt hm
    exact .single (ih (by omega))
  | comparison hl hr ihl ihr =>
    obtain ⟨k, rfl⟩ := Nat.exists_eq_add_of_lt hm
    exact .comparison (ihl (by omega)) (ihr (by omega))
  | group h ih => exact .group (ih hm)
  | string s => exact .string s
  | integer i => exact .integer i
  | receiver hp h ih => exact .receiver hp (ih hm)
  | truth v hp => exact .truth v hp
  | plain hp h ih => exact .plain hp (ih hm)
  | conversion hp h ih => exact .conversion hp (ih hm)
  | call fields hf hk hv => exact .call fields hf hk hv
  | captured fields hx hv => exact .captured fields hx hv
  | member x => exact .member x
  | textContains h ih => exact .textContains (ih hm)
  | attributeText ht => exact .attributeText ht
  | attributeContains ht h ih => exact .attributeContains ht (ih hm)

/-- Tokens at no place in particular. -/
def unplaced (ts : List Token) : List Lexeme := ts.map (⟨·, 0⟩)

theorem map_token_unplaced (ts : List Token) : (unplaced ts).map Lexeme.token = ts := by
  simp [unplaced, Function.comp_def]

/-- The parser of a disjunction takes it before a closing parenthesis. -/
theorem Derives.parses_before (h : Derives b parameter (.chain .or) n ts e) (after : List Token) :
    ∃ calls, Parser.disjunction (Parser.unary ⟨b, parameter, 0⟩ n)
        ⟨unplaced (ts ++ .rightParen :: after), []⟩ =
      .ok e ⟨unplaced (.rightParen :: after), calls⟩ := by
  have hp : Parser.Parses ⟨b, parameter, 0⟩ (.chain .or) n ts e := Parser.parses_of_derives h
  rw [unplaced, List.map_append]
  refine hp _ _ [] (map_token_unplaced ts) ?_
  rintro l hl
  cases hl
  exact Parser.rightParen_notMem_stops

/-- Of the tokens before a closing parenthesis only one disjunction can be read, and with one
tree. -/
theorem Derives.unique (h : Derives b parameter (.chain .or) n ts e)
    (h' : Derives b parameter (.chain .or) n us e') {after after' : List Token}
    (heq : ts ++ .rightParen :: after = us ++ .rightParen :: after') : ts = us ∧ e = e' := by
  -- the parser takes both, from the same lexemes
  obtain ⟨calls, hp⟩ := h.parses_before after
  obtain ⟨calls', hp'⟩ := h'.parses_before after'
  rw [heq, hp'] at hp
  injection hp with he hstate
  injection hstate with hrest
  have hafter := congrArg (List.map Lexeme.token) hrest
  rw [map_token_unplaced, map_token_unplaced] at hafter
  cases hafter
  exact ⟨List.append_cancel_right heq, he.symm⟩

/-- Tokens that go on, after an opening parenthesis, with a disjunction and the closing one. -/
def Closes (b : Bindings) (parameter : Option String) (n : Nat) (ts : List Token) : Prop :=
  ∃ us after e, ts = us ++ .rightParen :: after ∧ Derives b parameter (.chain .or) n us e

theorem Closes.append (h : Closes b parameter n ts) (us : List Token) :
    Closes b parameter n (ts ++ us) := by
  obtain ⟨vs, after, e, rfl, hd⟩ := h
  exact ⟨vs, after ++ us, e, by simp, hd⟩

theorem Derives.closes_operand (h : Derives b parameter .operand n (.leftParen :: ts) e) :
    Closes b parameter n ts := by
  cases h with
  | group h => exact ⟨_, [], _, rfl, h⟩

theorem Derives.closes_unary (h : Derives b parameter .unary (n + 1) (.leftParen :: ts) e) :
    Closes b parameter n ts := by
  generalize hts : Token.leftParen :: ts = all at h
  cases h with
  | negation => cases hts
  | single h =>
    subst hts
    exact h.closes_operand
  | comparison hl hr =>
    obtain ⟨t, us, rfl, -⟩ := hl.operand_cons
    cases hts
    exact hl.closes_operand.append _

/-- A chain that starts with an opening parenthesis closes it if its first item does. -/
theorem Derives.closes_chain {c : Connective}
    (hitem : ∀ ts e, Derives b parameter c.item n (.leftParen :: ts) e → Closes b parameter m ts)
    (hne : ∀ e, ¬ Derives b parameter c.item n [] e)
    (h : Derives b parameter (.chain c) n (.leftParen :: ts) e) : Closes b parameter m ts := by
  generalize hts : Token.leftParen :: ts = all at h
  cases h with
  | @chain _ _ ts us l _ hi hl =>
    cases ts with
    | nil => exact absurd hi (hne l)
    | cons t ts =>
      cases hts
      exact (hitem _ _ hi).append us

theorem Derives.closes (h : Derives b parameter (.chain .or) (n + 1) (.leftParen :: ts) e) :
    Closes b parameter n ts := by
  refine h.closes_chain (fun ts e h => ?_) (fun e h => h.chain_ne_nil rfl)
  exact h.closes_chain (fun ts e h => h.closes_unary) (fun e h => h.unary_ne_nil rfl)

/-- Tokens that are a disjunction alone and in parentheses are one operand in parentheses. -/
theorem Derives.parenthesized (h : Derives b parameter (.chain .or) (n + 1) ts e)
    (h' : Derives b parameter (.chain .or) (n + 1) (.leftParen :: (ts ++ [.rightParen])) e') :
    Derives b parameter .unary (n + 1) (.leftParen :: (ts ++ [.rightParen])) e := by
  obtain ⟨us, after, e'', heq, hd⟩ := h'.closes
  obtain ⟨rfl, rfl⟩ := h.unique (hd.mono (Nat.le_succ n)) heq
  exact .single (.group hd)

end Grammar

open Token Grammar

/-! ## Texts of phrases -/

/-- A text is a phrase with a tree before every text that does not go on with it. -/
def Reads (b : Bindings) (ph : Phrase) (text : String) (e : Expr) : Prop :=
  ∃ ts, Cuts text ts ∧ Derives b none ph Parser.maxDepth ts e

variable {b : Bindings} {text : String} {e : Expr}

theorem cuts_of_tokenize {lexemes : List Lexeme} (h : tokenize text.toList = .ok lexemes) :
    Cuts text (lexemes.map Lexeme.token) :=
  fun _ _ hrest => (lexes_of_tokenize h).append hrest

theorem cuts_parenthesized {ts : List Token} (h : Cuts text ts) :
    Cuts ("(" ++ text ++ ")") (.leftParen :: (ts ++ [.rightParen])) := by
  have hempty : Cuts "" [] := fun _ _ hrest => hrest.lexes
  have := cuts_applied hempty h
  rwa [String.empty_append] at this

/-- A text of lexemes is parsed as its tokens are. -/
theorem Cuts.parse {ts : List Token} (h : Cuts text ts) :
    ∃ lexemes, lexemes.map Lexeme.token = ts ∧
      Expr.parse text b = Parser.parseLexemes b (Text.byteLength text.toList) lexemes := by
  have hlexes := h [] [] separate_nil
  rw [List.append_nil, List.append_nil] at hlexes
  obtain ⟨lexemes, hscan, htokens⟩ := tokenize_of_lexes hlexes
  exact ⟨lexemes, htokens, by rw [Expr.parse, Parser.parseChars, hscan]⟩

theorem Reads.parse (h : Reads b (.chain .or) text e) : (Expr.parse text b).result = .ok e := by
  obtain ⟨ts, hcuts, hd⟩ := h
  obtain ⟨lexemes, rfl, hparse⟩ := hcuts.parse
  rw [hparse]
  exact Parser.parseLexemes_of_predicate (.plain hd)

/-- A text that is parsed alone and in parentheses is a condition in parentheses. -/
theorem reads_parenthesized (hb : b.Fixed) (h : (Expr.parse text b).result = .ok e) {e' : Expr}
    (h' : (Expr.parse ("(" ++ text ++ ")") b).result = .ok e') :
    Reads b .unary ("(" ++ text ++ ")") e := by
  cases htokens : tokenize text.toList with
  | error err =>
    rw [Expr.parse, Parser.parseChars, htokens] at h
    cases h
  | ok lexemes =>
    rw [Expr.parse, Parser.parseChars, htokens] at h
    have hcuts := cuts_parenthesized (cuts_of_tokenize htokens)
    obtain ⟨lexemes', htokens', hparse⟩ := hcuts.parse
    rw [hparse] at h'
    have hp := Parser.predicate_of_parseLexemes hb h
    have hp' := Parser.predicate_of_parseLexemes hb h'
    rw [htokens'] at hp'
    generalize lexemes.map Lexeme.token = ts at hcuts hp hp'
    refine ⟨_, hcuts, ?_⟩
    cases hp' with
    | plain hd' =>
      cases hp with
      | plain hd => exact hd.parenthesized hd'
      | lambda hd => exact absurd (by simp) hd'.arrow_notMem

/-! ## Chains of texts -/

/-- Texts in parentheses with a separator between them. -/
def joinTexts (separator : String) (texts : List String) : String :=
  separator.intercalate (texts.map fun text => "(" ++ text ++ ")")

theorem intercalate_cons (separator text : String) (texts : List String) :
    separator.intercalate (text :: texts) = text ++ String.join (texts.map (separator ++ ·)) := by
  induction texts generalizing text with
  | nil => simp
  | cons next texts ih =>
    rw [String.intercalate_cons_cons, ih, List.map_cons, String.join_cons]
    simp only [String.append_assoc]

variable {c : Connective}

/-- The further texts of a chain are its links. They start with a space, so they do not go on with
the text before them. -/
theorem reads_links {parts : List (String × Expr)}
    (h : ∀ part ∈ parts, Reads b c.item ("(" ++ part.1 ++ ")") part.2) (l : Expr) :
    ∃ ts, (∀ rest us, Separate rest us → Separate
        ((String.join (parts.map fun part =>
          " " ++ c.token.display ++ " " ++ ("(" ++ part.1 ++ ")"))).toList ++ rest) (ts ++ us)) ∧
      Derives b none (.links c l) Parser.maxDepth ts ((parts.map Prod.snd).foldl c.join l) := by
  induction parts generalizing l with
  | nil => exact ⟨[], fun _ _ hrest => hrest, .finish⟩
  | cons part parts ih =>
    obtain ⟨ts, hcuts, hd⟩ := h part (List.mem_cons_self ..)
    obtain ⟨us, hseparate, hlinks⟩ :=
      ih (fun part hpart => h part (List.mem_cons_of_mem _ hpart)) (c.join l part.2)
    refine ⟨c.token :: (ts ++ us), fun rest vs hrest => ?_, .link hd hlinks⟩
    have := separate_spaced (t := c.token) (by cases c <;> decide) (hcuts _ _ (hseparate _ _ hrest))
    simpa using this

/-- Texts with the operator of a connective between them are a chain of it. -/
theorem reads_joinTexts {first : String × Expr} {rest : List (String × Expr)}
    (h : ∀ part ∈ first :: rest, Reads b c.item ("(" ++ part.1 ++ ")") part.2) :
    Reads b (.chain c)
      (joinTexts (" " ++ c.token.display ++ " ") ((first :: rest).map Prod.fst))
      ((rest.map Prod.snd).foldl c.join first.2) := by
  obtain ⟨ts, hcuts, hd⟩ := h first (List.mem_cons_self ..)
  obtain ⟨us, hseparate, hlinks⟩ :=
    reads_links (fun part hpart => h part (List.mem_cons_of_mem _ hpart)) first.2
  refine ⟨ts ++ us, fun after vs hafter => ?_, .chain hd hlinks⟩
  rw [joinTexts, List.map_cons, List.map_cons, intercalate_cons, String.toList_append,
    List.append_assoc, List.append_assoc]
  have := hcuts _ _ (hseparate _ _ hafter)
  simpa [Function.comp_def] using this

theorem Reads.lone (h : Reads b c.item text e) : Reads b (.chain c) text e := by
  obtain ⟨ts, hcuts, hd⟩ := h
  exact ⟨ts, hcuts, hd.lone⟩

namespace Expr

/-- Texts joined by "and" give the conjunction of their trees, and texts joined by "or" their
disjunction, nested to the left, however many they are. So a text of joined conditions has the
location path of the conjunction of the conditions. -/
theorem parse_joinTexts (hb : b.Fixed) (first : String × Expr) (rest : List (String × Expr))
    (h : ∀ part ∈ first :: rest, (parse part.1 b).result = .ok part.2 ∧
      (parse ("(" ++ part.1 ++ ")") b).result = .ok part.2) :
    (∃ e, all ((first :: rest).map Prod.snd) = some e ∧
      (parse (joinTexts " && " ((first :: rest).map Prod.fst)) b).result = .ok e ∧
      ∀ strict, xpathOfText strict (joinTexts " && " ((first :: rest).map Prod.fst)) b =
        e.xpath strict) ∧
    (parse (joinTexts " || " ((first :: rest).map Prod.fst)) b).result =
      .ok ((rest.map Prod.snd).foldl or first.2) := by
  have hparts : ∀ part ∈ first :: rest, Reads b .unary ("(" ++ part.1 ++ ")") part.2 :=
    fun part hpart => reads_parenthesized hb (h part hpart).1 (h part hpart).2
  have hand : Reads b (.chain .or) (joinTexts " && " ((first :: rest).map Prod.fst))
      ((rest.map Prod.snd).foldl and first.2) :=
    (reads_joinTexts (c := .and) hparts).lone (c := .or)
  have hor := reads_joinTexts (c := .or) fun part hpart => (hparts part hpart).lone (c := .and)
  refine ⟨⟨_, rfl, hand.parse, fun strict => ?_⟩, hor.parse⟩
  rw [xpathOfText, hand.parse]
  rfl

/-- Three conditions, one of them a disjunction and one with a call. -/
theorem parse_joinTexts_three :
    (parse "(Position == 2) && (Text == \"a\" || Text == n) && (Parent.Name == tag())"
        ⟨[("n", .int 1)], [("tag", fun _ => .string "td")]⟩).result =
      .ok (and (and (eq (path (.member (.position .target))) (literal (.int 2)))
        (or (eq (path (.member (.text .target))) (literal (.str "a")))
          (eq (path (.member (.text .target))) (captured "n" (.int 1)))))
        (eq (path (.member (.name .parent))) (call "tag" (.string "td")))) := by
  have h := parse_joinTexts (b := ⟨[("n", .int 1)], [("tag", fun _ => .string "td")]⟩)
    (Bindings.fixed_singleton _ _ _)
    ("Position == 2", eq (path (.member (.position .target))) (literal (.int 2)))
    [("Text == \"a\" || Text == n",
        or (eq (path (.member (.text .target))) (literal (.str "a")))
          (eq (path (.member (.text .target))) (captured "n" (.int 1)))),
      ("Parent.Name == tag()", eq (path (.member (.name .parent))) (call "tag" (.string "td")))]
    (by
      simp only [List.forall_mem_cons]
      refine ⟨⟨?_, ?_⟩, ⟨?_, ?_⟩, ⟨?_, ?_⟩, by simp⟩
      all_goals cbv)
  obtain ⟨e, he, hparse, -⟩ := h.1
  cases he
  exact hparse

end Expr

end ElementQuery
