/-
The levels of nesting that a text needs. Tokens that stand for a tree need a number of levels: with
as many or more the parser takes them, and with fewer it finds them nested too deeply, since with
fewer levels it does all that it does with more up to the place where none is left. A parenthesis or
a bang in front takes one level away, so the deepest nesting is a sharp threshold: a text can be put
in as many parentheses as it leaves levels unused, and one more is too deep.

Main statement: the threshold, for parentheses and for bangs, with the place of the error where the
parentheses or bangs alone are too many.
-/
import ElementQuery.Proofs.Expr.Join
import ElementQuery.Proofs.Parser.Calls
import ElementQuery.Proofs.Parser.Erase

namespace ElementQuery

/-! ## Levels that a phrase needs -/

namespace Grammar

variable {b : Bindings} {parameter : Option String} {n : Nat} {ts : List Token} {e : Expr}

theorem Derives.unary_pos (h : Derives b parameter .unary n ts e) : 0 < n := by
  cases h <;> exact Nat.succ_pos _

theorem Derives.disjunction_pos (h : Derives b parameter (.chain .or) n ts e) : 0 < n := by
  cases h with
  | chain hconj _ =>
    cases hconj with
    | chain hunary _ => exact Derives.unary_pos hunary

/-- The tokens of a disjunction need a least number of levels, and any more will do. -/
theorem Derives.exists_levels (h : Derives b parameter (.chain .or) n ts e) :
    ∃ levels, 0 < levels ∧ levels ≤ n ∧
      ∀ m, Derives b parameter (.chain .or) m ts e ↔ levels ≤ m := by
  classical
  have hex : ∃ m, Derives b parameter (.chain .or) m ts e := ⟨n, h⟩
  have hleast := Nat.find_spec hex
  refine ⟨Nat.find hex, hleast.disjunction_pos, Nat.find_min' hex h, fun m => ?_⟩
  constructor
  · exact fun hm => Nat.find_min' hex hm
  · exact fun hm => hleast.mono hm

/-- A disjunction in parentheses is a disjunction, one level further out for each pair. -/
theorem Derives.groups (h : Derives b parameter (.chain .or) n ts e) (k : Nat) :
    Derives b parameter (.chain .or) (n + k)
      (List.replicate k .leftParen ++ (ts ++ List.replicate k .rightParen)) e := by
  induction k with
  | zero => simpa using h
  | succ k ih =>
    have hgroup := (Derives.single ih.group).disjunction
    rw [List.replicate_succ, List.replicate_succ', ← Nat.add_assoc]
    simpa using hgroup

/-- A negation for each of the bangs before a condition. -/
theorem Derives.negations (h : Derives b parameter .unary n ts e) (k : Nat) :
    Derives b parameter .unary (n + k) (List.replicate k .bang ++ ts) (Expr.not^[k] e) := by
  induction k with
  | zero => exact h
  | succ k ih =>
    rw [Function.iterate_succ_apply', List.replicate_succ]
    exact ih.negation

end Grammar

/-! ## Rows of openers -/

namespace Token

/-- A character that opens a level of nesting, and its token. -/
inductive Opener : Char → Token → Prop
  | negation : Opener '!' .bang
  | group : Opener '(' .leftParen

/-- A token of one byte, again and again from an offset on. -/
def row (t : Token) (offset n : Nat) : List Lexeme := (List.range' offset n).map (⟨t, ·⟩)

theorem row_succ (t : Token) (offset n : Nat) :
    row t offset (n + 1) = ⟨t, offset⟩ :: row t (offset + 1) n := rfl

theorem row_add (t : Token) (offset n m : Nat) :
    row t offset (n + m) = row t offset n ++ row t (offset + n) m := by
  rw [row, row, row, ← List.map_append, List.range'_append_1]

theorem map_token_row (t : Token) (offset n : Nat) :
    (row t offset n).map Lexeme.token = List.replicate n t := by
  simp [row, Function.comp_def, List.map_const']

variable {c : Char} {t : Token}

theorem Opener.scan (ht : Opener c t) {bound offset : Nat} {rest : List Char}
    {lexemes : List Lexeme} (h : scan bound (offset + 1) rest = .ok lexemes) :
    Token.scan (bound + 1) offset (c :: rest) = .ok (⟨t, offset⟩ :: lexemes) := by
  cases ht with
  | negation => exact @scan_token _ [] _ _ (by decide) rfl _ _ _ h
  | group => exact @scan_token _ [] _ _ (by decide) rfl _ _ _ h

theorem Opener.scan_row (ht : Opener c t) {bound offset n : Nat} {rest : List Char}
    {lexemes : List Lexeme} (h : Token.scan bound (offset + n) rest = .ok lexemes) :
    Token.scan (n + bound) offset (List.replicate n c ++ rest) =
      .ok (row t offset n ++ lexemes) := by
  induction n generalizing offset with
  | zero => simpa [row] using h
  | succ n ih =>
    rw [Nat.add_right_comm, List.replicate_succ, row_succ]
    refine ht.scan (ih ?_)
    rwa [Nat.add_assoc, Nat.add_comm 1 n]

theorem separate_closing (k : Nat) :
    Separate (List.replicate k ')') (List.replicate k .rightParen) := by
  induction k with
  | zero => exact separate_nil
  | succ k ih => exact separate_operator (t := .rightParen) (by decide) ih.lexes

/-- The lexemes of a text in parentheses, after a row of openers. -/
theorem Opener.tokenize (ht : Opener c t) {cs : List Char} {ts : List Token} (h : Lexes cs ts)
    (m k : Nat) :
    ∃ inner, Token.tokenize (List.replicate m c ++ '(' :: (cs ++ List.replicate k ')')) =
        .ok (row t 0 m ++ ⟨.leftParen, m⟩ :: inner) ∧
      inner.map Lexeme.token = ts ++ List.replicate k .rightParen := by
  have hlexes := h.append (separate_closing k)
  obtain ⟨inner, hscan, hinner⟩ := scan_of_lexes hlexes _ (m + 1) (Nat.le_refl _)
  refine ⟨inner, ?_, hinner⟩
  rw [Token.tokenize, List.length_append, List.length_replicate, List.length_cons]
  refine ht.scan_row ?_
  rw [Nat.zero_add]
  exact Opener.group.scan hscan

end Token

namespace Parser

open Grammar Token

/-! ## Fewer levels -/

/-- The error of a parser that has no level left. -/
def TooDeep (e : Error) : Prop := ∃ position, e = .parse .nestedTooDeeply position

variable (ctx : Context) {n m : Nat}

theorem rebinds_self : Rebinds TooDeep ctx ctx.bindings where
  values x := by
    cases ctx.bindings.value? x with
    | none => exact .none
    | some v => exact .some (.refl Literal.respected_sameText v)
  functions _ := rfl
  attributeNames := .same _

/-- With fewer levels left a parser goes in step with one that has more, or finds the nesting too
deep. -/
theorem buildAlike_unary (h : n ≤ m) : BuildAlike TooDeep (unary ctx m) (unary ctx n) := by
  induction n generalizing m with
  | zero => exact fun s => .refused ⟨_, rfl⟩ _ _
  | succ n ih =>
    obtain ⟨m, rfl⟩ : ∃ k, m = k + 1 := ⟨m - 1, by omega⟩
    have ih := ih (Nat.le_of_succ_le_succ h)
    unfold unary
    refine .after (eat .bang) fun a => ?_
    cases a with
    | true => exact ih.bind fun e e' he => .pure (.not he)
    | false => exact (rebinds_self ctx).comparison (buildAlike_disjunction ih)

/-- Tokens of a disjunction that needs more levels than are left are nested too deeply: no other
error comes first. -/
theorem disjunction_tooDeep {ts : List Token} {e : Expr} (hb : ctx.bindings.Fixed)
    (hd : Derives ctx.bindings ctx.parameter (.chain .or) m ts e) (hle : n ≤ m)
    (hn : ¬ Derives ctx.bindings ctx.parameter (.chain .or) n ts e) {used rest : List Lexeme}
    (hu : used.map Lexeme.token = ts) (hrest : Clear (stops (.chain .or)) rest)
    (calls : List String) :
    ∃ position calls', disjunction (unary ctx n) ⟨used ++ rest, calls⟩ =
      .failed (.parse .nestedTooDeeply position) calls' := by
  have hp : Parses ctx (.chain .or) m ts e := parses_of_derives hd
  obtain ⟨calls₁, hmore⟩ := hp used rest calls hu hrest
  have hsteps := buildAlike_disjunction (buildAlike_unary ctx hle) ⟨used ++ rest, calls⟩
  have hmore : disjunction (unary ctx m) ⟨used ++ rest, calls⟩ = .ok e ⟨rest, calls₁⟩ := hmore
  rw [hmore] at hsteps
  generalize hless : disjunction (unary ctx n) ⟨used ++ rest, calls⟩ = o at hsteps
  cases hsteps with
  | @ok _ e' _ _ =>
    -- what the run with fewer levels took are the same tokens, so they need no more levels
    obtain ⟨used', hused', hd'⟩ := sound_disjunction (sound_unary hb n) _ _ _ hless
    obtain rfl := List.append_cancel_right hused'
    rw [hu] at hd'
    have hclosed : ts ++ [.rightParen] = ts ++ [.rightParen] := rfl
    obtain ⟨-, rfl⟩ := (hd'.mono hle).unique hd hclosed
    exact absurd hd' hn
  | refused h calls' _ =>
    obtain ⟨position, rfl⟩ := h
    exact ⟨position, calls', rfl⟩

/-! ## Opening a level -/

variable {ctx} {rest : List Lexeme} {calls calls' : List String} {err : Error}

theorem chain_failed {operator : Token} {join : Expr → Expr → Expr} {item : Parser Expr} {s : State}
    (h : item s = .failed err calls) : chain operator join item s = .failed err calls := by
  unfold chain
  exact bind_of_failed h

theorem disjunction_failed {p : Parser Expr} {s : State} (h : p s = .failed err calls) :
    disjunction p s = .failed err calls :=
  chain_failed (chain_failed h)

/-- What fails inside a parenthesis makes the condition fail. -/
theorem unary_leftParen_failed (o : Nat)
    (h : disjunction (unary ctx n) ⟨rest, calls⟩ = .failed err calls') :
    unary ctx (n + 1) ⟨⟨.leftParen, o⟩ :: rest, calls⟩ = .failed err calls' := by
  have hoperand : operand ctx (disjunction (unary ctx n)) ⟨⟨.leftParen, o⟩ :: rest, calls⟩ =
      .failed err calls' := by
    unfold operand
    rw [bind_of_ok (p := offset ctx) rfl, bind_of_ok (p := advance) rfl]
    exact bind_of_failed h
  unfold unary
  rw [bind_of_ok (p := eat .bang) rfl]
  exact bind_of_failed hoperand

theorem unary_bang_failed (o : Nat) (h : unary ctx n ⟨rest, calls⟩ = .failed err calls') :
    unary ctx (n + 1) ⟨⟨.bang, o⟩ :: rest, calls⟩ = .failed err calls' := by
  unfold unary
  rw [bind_of_ok (p := eat .bang) rfl]
  exact bind_of_failed h

/-- What fails after a row of openers fails with a level more for each of them in front of it. -/
theorem unary_row_failed {c : Char} {t : Token} (ht : Opener c t) (offset k : Nat)
    (h : unary ctx n ⟨rest, calls⟩ = .failed err calls') :
    unary ctx (n + k) ⟨row t offset k ++ rest, calls⟩ = .failed err calls' := by
  induction k generalizing offset with
  | zero => exact h
  | succ k ih =>
    have ih := ih (offset + 1)
    rw [← Nat.add_assoc, row_succ]
    cases ht with
    | negation => exact unary_bang_failed offset ih
    | group => exact unary_leftParen_failed offset (disjunction_failed ih)

/-- Where openers alone take all levels, the error is at the first one that is too many. -/
theorem unary_row_tooDeep {c : Char} {t : Token} (ht : Opener c t) (n k : Nat)
    (inner : List Lexeme) :
    unary ctx n ⟨row t 0 (n + k) ++ ⟨.leftParen, n + k⟩ :: inner, calls⟩ =
      .failed (.parse .nestedTooDeeply n) calls := by
  have hfirst : unary ctx 0 ⟨row t n k ++ ⟨.leftParen, n + k⟩ :: inner, calls⟩ =
      .failed (.parse .nestedTooDeeply n) calls := by
    cases k <;> rfl
  have hrow := unary_row_failed ht 0 n hfirst
  rw [Nat.zero_add] at hrow
  rw [row_add, List.append_assoc, Nat.zero_add]
  exact hrow

theorem clear_closing {k : Nat} (h : rest.map Lexeme.token = List.replicate k .rightParen) :
    Clear (stops (.chain .or)) rest := by
  intro l hl
  have htoken := List.mem_map_of_mem (f := Lexeme.token) (List.mem_of_mem_head? hl)
  rw [h] at htoken
  rw [List.eq_of_mem_replicate htoken]
  exact rightParen_notMem_stops

variable (ctx) in
/-- A disjunction in parentheses after a row of openers is nested too deeply if the openers and the
parenthesis leave fewer levels than it needs. -/
theorem unary_tooDeep {c : Char} {t : Token} (ht : Opener c t) (hb : ctx.bindings.Fixed)
    {ts : List Token} {e : Expr} (hd : Derives ctx.bindings ctx.parameter (.chain .or) n ts e)
    (hn : ¬ Derives ctx.bindings ctx.parameter (.chain .or) (n - (m + 1)) ts e)
    {inner : List Lexeme} {k : Nat}
    (hinner : inner.map Lexeme.token = ts ++ List.replicate k .rightParen) (calls : List String) :
    ∃ position calls', unary ctx n ⟨row t 0 m ++ ⟨.leftParen, m⟩ :: inner, calls⟩ =
        .failed (.parse .nestedTooDeeply position) calls' ∧ (n ≤ m → position = n) := by
  by_cases hm : n ≤ m
  · obtain ⟨k, rfl⟩ := Nat.exists_eq_add_of_le hm
    exact ⟨n, calls, unary_row_tooDeep ht n k inner, fun _ => rfl⟩
  · obtain ⟨d, rfl⟩ : ∃ d, n = d + 1 + m := ⟨n - (m + 1), by omega⟩
    have hleft : d + 1 + m - (m + 1) = d := by omega
    rw [hleft] at hn
    obtain ⟨used, rest, rfl, hused, hrest⟩ := List.map_eq_append_iff.1 hinner
    obtain ⟨position, calls', hinside⟩ :=
      disjunction_tooDeep ctx hb hd (by omega) hn hused (clear_closing hrest) calls
    have hgroup := unary_leftParen_failed m hinside
    exact ⟨position, calls', unary_row_failed ht 0 m hgroup, fun h => absurd h hm⟩

theorem parseLexemes_failed {b : Bindings} {finish : Nat} {lexemes : List Lexeme}
    (hheader : header lexemes = (none, lexemes)) (hne : lexemes ≠ [])
    (h : unary ⟨b, none, finish⟩ maxDepth ⟨lexemes, []⟩ = .failed err calls) :
    (parseLexemes b finish lexemes).result = .error err := by
  have hwhole : whole ⟨b, none, finish⟩ ⟨lexemes, []⟩ = .failed err calls := by
    unfold whole body
    exact bind_of_failed (disjunction_failed h)
  unfold parseLexemes
  rw [if_neg (by simpa using hne), hheader]
  dsimp only
  rw [hwhole]

theorem header_row {c : Char} {t : Token} (ht : Opener c t) (m : Nat) (inner : List Lexeme) :
    header (row t 0 m ++ ⟨.leftParen, m⟩ :: inner) =
      (none, row t 0 m ++ ⟨.leftParen, m⟩ :: inner) := by
  cases m with
  | zero => rfl
  | succ m => cases ht <;> rfl

end Parser

/-! ## Whole texts -/

open Token Grammar

/-- Whether a text starts with the parameter of a lambda and its arrow. -/
def Parser.hasHeader (text : String) : Bool :=
  match tokenize text.toList with
  | .ok lexemes => (header lexemes).1.isSome
  | .error _ => false

variable {b : Bindings} {text source : String} {e : Expr}

/-- A text without a header that is parsed is cut into the tokens of a disjunction. -/
theorem derives_of_parse (hb : b.Fixed) (hheader : Parser.hasHeader text = false)
    (h : (Expr.parse text b).result = .ok e) :
    ∃ ts, Lexes text.toList ts ∧ Derives b none (.chain .or) Parser.maxDepth ts e := by
  unfold Parser.hasHeader at hheader
  unfold Expr.parse Parser.parseChars at h
  cases htokens : tokenize text.toList with
  | error err =>
    rw [htokens] at h
    cases h
  | ok lexemes =>
    rw [htokens] at h hheader
    dsimp only at hheader
    refine ⟨_, lexes_of_tokenize htokens, ?_⟩
    generalize hts : lexemes.map Lexeme.token = ts
    have hp := Parser.predicate_of_parseLexemes hb h
    rw [hts] at hp
    cases hp with
    | plain hd => exact hd
    | lambda hd =>
      rcases Parser.header_cases lexemes with ⟨p, rest, hp, -⟩ | ⟨-, hnone⟩
      · rw [hp] at hheader
        cases hheader
      · exact absurd hts (hnone _ _)

section Opened

variable {c : Char} {t : Token} (ht : Opener c t) {ts : List Token} (hl : Lexes text.toList ts)
  {m k : Nat}
  (hsource : source.toList = List.replicate m c ++ '(' :: (text.toList ++ List.replicate k ')'))

include ht hl hsource

theorem parse_opened {e' : Expr} (hd : Derives b none (.chain .or) Parser.maxDepth
      (List.replicate m t ++ .leftParen :: (ts ++ List.replicate k .rightParen)) e') :
    (Expr.parse source b).result = .ok e' := by
  obtain ⟨inner, htokens, hinner⟩ := ht.tokenize hl m k
  rw [Expr.parse, Parser.parseChars, hsource, htokens]
  refine Parser.parseLexemes_of_predicate (.plain ?_)
  rw [List.map_append, List.map_cons, map_token_row, hinner]
  exact hd

theorem parse_opened_tooDeep (hb : b.Fixed)
    (hd : Derives b none (.chain .or) Parser.maxDepth ts e)
    (hn : ¬ Derives b none (.chain .or) (Parser.maxDepth - (m + 1)) ts e) :
    ∃ position, (Expr.parse source b).result = .error (.parse .nestedTooDeeply position) ∧
      (Parser.maxDepth ≤ m → position = Parser.maxDepth) := by
  obtain ⟨inner, htokens, hinner⟩ := ht.tokenize hl m k
  obtain ⟨position, calls, hunary, hposition⟩ :=
    Parser.unary_tooDeep ⟨b, none, Text.byteLength source.toList⟩ ht hb hd hn hinner []
  refine ⟨position, ?_, hposition⟩
  rw [Expr.parse, Parser.parseChars, hsource, htokens, ← hsource]
  exact Parser.parseLexemes_failed (Parser.header_row ht m inner) (by simp) hunary

end Opened

namespace Expr

/-- A text in parentheses, as many as given. -/
def parenthesized (n : Nat) (text : String) : String :=
  String.ofList (List.replicate n '(') ++ text ++ String.ofList (List.replicate n ')')

/-- A text in parentheses with bangs before it, as many as given. -/
def negated (n : Nat) (text : String) : String :=
  String.ofList (List.replicate n '!') ++ "(" ++ text ++ ")"

theorem toList_parenthesized (n : Nat) (text : String) :
    (parenthesized (n + 1) text).toList =
      List.replicate n '(' ++ '(' :: (text.toList ++ List.replicate (n + 1) ')') := by
  rw [parenthesized, List.replicate_succ']
  simp

theorem toList_negated (n : Nat) (text : String) :
    (negated n text).toList =
      List.replicate n '!' ++ '(' :: (text.toList ++ List.replicate 1 ')') := by
  simp [negated]

/-- The deepest nesting is a sharp threshold, and below it parentheses change nothing. Each text
without a lambda header that is parsed can be put in a number of parentheses and gives the same
tree; in more of them it is nested too deeply, and no other error comes first. A bang takes a level
as a parenthesis does. Where the parentheses or bangs alone are too many, the error is at the first
one beyond the deepest nesting. -/
theorem parse_nested (hb : b.Fixed) (hheader : Parser.hasHeader text = false)
    (h : (parse text b).result = .ok e) :
    Fault.nestedTooDeeply.message = "predicate nested too deeply" ∧
    ∃ most ≤ 255,
      (∀ n, (n ≤ most → (parse (parenthesized n text) b).result = .ok e) ∧
        (most < n → ∃ position, (parse (parenthesized n text) b).result =
            .error (.parse .nestedTooDeeply position) ∧ (256 < n → position = 256))) ∧
      ∀ n, (n + 1 ≤ most → (parse (negated n text) b).result = .ok (not^[n] e)) ∧
        (most < n + 1 → ∃ position, (parse (negated n text) b).result =
            .error (.parse .nestedTooDeeply position) ∧ (256 ≤ n → position = 256)) := by
  obtain ⟨ts, hl, hd⟩ := derives_of_parse hb hheader h
  obtain ⟨levels, hpos, hle, hlevels⟩ := hd.exists_levels
  have hleast := (hlevels levels).2 (Nat.le_refl _)
  have hmax : Parser.maxDepth = 256 := rfl
  have hdeep : ∀ m, 256 - levels < m + 1 →
      ¬ Derives b none (.chain .or) (Parser.maxDepth - (m + 1)) ts e := by
    intro m hm
    rw [hlevels]
    omega
  refine ⟨rfl, 256 - levels, by omega, fun n => ⟨fun hn => ?_, fun hn => ?_⟩,
    fun n => ⟨fun hn => ?_, fun hn => ?_⟩⟩
  · cases n with
    | zero => simpa [parenthesized] using h
    | succ n =>
      have hroom : levels + (n + 1) ≤ Parser.maxDepth := by omega
      have hgroups := (hleast.groups (n + 1)).mono hroom
      rw [List.replicate_succ', List.append_assoc] at hgroups
      exact parse_opened .group hl (toList_parenthesized n text) hgroups
  · obtain ⟨n, rfl⟩ : ∃ k, n = k + 1 := ⟨n - 1, by omega⟩
    obtain ⟨position, herror, hposition⟩ :=
      parse_opened_tooDeep .group hl (toList_parenthesized n text) hb hd (hdeep n hn)
    exact ⟨position, herror, fun h => hposition (by omega)⟩
  · have hroom : levels + 1 + n ≤ Parser.maxDepth := by omega
    have hnegations := ((Derives.single hleast.group).negations n).mono hroom
    exact parse_opened .negation hl (toList_negated n text) hnegations.disjunction
  · exact parse_opened_tooDeep .negation hl (toList_negated n text) hb hd (hdeep n hn)

/-- A comparison in one pair of parentheses beyond the deepest nesting, and after many bangs. -/
theorem parse_nested_position :
    (parse (parenthesized 257 "Position == 1") ⟨[], []⟩).result =
        .error (.parse .nestedTooDeeply 256) ∧
      (parse (negated 20000 "Position == 1") ⟨[], []⟩).result =
        .error (.parse .nestedTooDeeply 256) := by
  have hb : Bindings.Fixed ⟨[], []⟩ := by
    rintro name f ⟨⟩
  have h : (parse "Position == 1" ⟨[], []⟩).result =
      .ok (eq (path (.member (.position .target))) (literal (.int 1))) := by
    cbv
  obtain ⟨-, most, hmost, hgroups, hbangs⟩ := parse_nested hb (by cbv) h
  obtain ⟨position, hgroup, hposition⟩ := (hgroups 257).2 (by omega)
  obtain ⟨position', hbang, hposition'⟩ := (hbangs 20000).2 (by omega)
  rw [hgroup, hbang, hposition (by decide), hposition' (by decide)]
  exact ⟨rfl, rfl⟩

end Expr

end ElementQuery
