/-
Texts as string literals. Any text can stand between quotes of either kind, with a backslash before
each backslash and before each quote of that kind: such a literal is scanned as the text, whatever
follows it.

What stands in a literal is read the other way as characters, some of them after a backslash. There
is one such reading, and it gives the text of the literal: no backslash is taken both for one that
keeps a character and for a character, and none is left over before the closing quote.
-/
import ElementQuery.Proofs.Token.Blanks

namespace ElementQuery.Token

/-! ## Writing a literal -/

/-- The two kinds of quotes. -/
def IsQuote (quote : Char) : Prop := quote = '"' ∨ quote = '\x27'

/-- A text as it stands between quotes: a backslash is put before each backslash and each quote. -/
def escape (quote : Char) (cs : List Char) : List Char :=
  cs.flatMap fun c => if c = '\\' ∨ c = quote then ['\\', c] else [c]

/-- A text as a string literal. -/
def quoted (quote : Char) (s : String) : List Char := quote :: (escape quote s.toList ++ [quote])

variable {quote : Char}

theorem quotedBody_escape (hq : IsQuote quote) (cs : List Char) :
    QuotedBody quote (escape quote cs) cs := by
  have hline : quote ≠ '\n' := by rcases hq with rfl | rfl <;> decide
  induction cs with
  | nil => exact .nil
  | cons c cs ih =>
    rw [escape, List.flatMap_cons]
    split
    · rename_i hc
      refine .escaped ?_ ih
      rcases hc with rfl | rfl
      · decide
      · exact hline
    · rename_i hc
      rw [not_or] at hc
      exact .plain hc.2 hc.1 ih

/-- A literal and the space after it are covered by the token of its text. -/
theorem covers_quoted (hq : IsQuote quote) (s : String) (cs : List Char) :
    Covers 0 ((quoted quote s ++ [' ']) ++ cs) [⟨.str s, 0⟩]
      (Text.byteLength (quoted quote s ++ [' '])) cs := by
  have hcut := cut?_string hq (quotedBody_escape hq s.toList) (' ' :: cs)
  rw [String.ofList_toList] at hcut
  rw [List.append_assoc, Text.byteLength_append]
  refine .lexeme (cut?_eq_some_iff.1 hcut) (.blank (by decide) ?_)
  rw [Nat.zero_add]
  exact .done

/-! ## Reading a literal -/

/-- A character as it is written in a literal, alone or after a backslash. -/
inductive Written where
  | plain (c : Char)
  | escaped (c : Char)

namespace Written

/-- The character that is meant. -/
def char : Written → Char
  | plain c | escaped c => c

/-- The characters that are written. -/
def chars : Written → List Char
  | plain c => [c]
  | escaped c => ['\\', c]

/-- Whether a backslash is written for the character. -/
def isEscaped : Written → Bool
  | plain _ => false
  | escaped _ => true

/-- What can be written between quotes of one kind: alone anything but the quote and a backslash,
and after a backslash anything but a line feed. -/
def Allowed (quote : Char) : Written → Prop
  | plain c => c ≠ quote ∧ c ≠ '\\'
  | escaped c => c ≠ '\n'

end Written

open Written

variable {written other : List Written} {body text : List Char}

theorem quotedBody_iff :
    QuotedBody quote body text ↔
      ∃ written : List Written, (∀ w ∈ written, w.Allowed quote) ∧ body = written.flatMap chars ∧
        text = written.map char := by
  constructor
  · intro h
    induction h with
    | nil => exact ⟨[], by simp, rfl, rfl⟩
    | @plain c _ _ hq hb _ ih =>
      obtain ⟨written, hallowed, rfl, rfl⟩ := ih
      exact ⟨plain c :: written, List.forall_mem_cons.2 ⟨⟨hq, hb⟩, hallowed⟩, rfl, rfl⟩
    | @escaped c _ _ hc _ ih =>
      obtain ⟨written, hallowed, rfl, rfl⟩ := ih
      exact ⟨escaped c :: written, List.forall_mem_cons.2 ⟨hc, hallowed⟩, rfl, rfl⟩
  · rintro ⟨written, hallowed, rfl, rfl⟩
    induction written with
    | nil => exact .nil
    | cons w written ih =>
      rw [List.forall_mem_cons] at hallowed
      cases w with
      | plain c => exact .plain hallowed.1.1 hallowed.1.2 (ih hallowed.2)
      | escaped c => exact .escaped hallowed.1 (ih hallowed.2)

theorem length_flatMap_chars (written : List Written) :
    (written.map char).length + written.countP isEscaped = (written.flatMap chars).length := by
  induction written with
  | nil => rfl
  | cons w written ih =>
    rw [List.map_cons, List.flatMap_cons, List.length_cons, List.length_append, ← ih,
      List.countP_cons]
    cases w <;> simp [isEscaped, chars] <;> omega

/-- What is written can be read in one way. -/
theorem eq_of_flatMap_chars (h : ∀ w ∈ written, w.Allowed quote)
    (h' : ∀ w ∈ other, w.Allowed quote) (heq : other.flatMap chars = written.flatMap chars) :
    other = written := by
  induction written generalizing other with
  | nil =>
    cases other with
    | nil => rfl
    | cons v other => cases v <;> cases heq
  | cons w written ih =>
    cases other with
    | nil => cases w <;> cases heq
    | cons v other =>
      rw [List.forall_mem_cons] at h h'
      -- the first character tells whether a backslash is written
      cases v with
      | plain d =>
        cases w with
        | plain c =>
          obtain ⟨rfl, hrest⟩ := List.cons.inj heq
          rw [ih h.2 h'.2 hrest]
        | escaped c => exact absurd (List.cons.inj heq).1 h'.1.2
      | escaped d =>
        cases w with
        | plain c => exact absurd (List.cons.inj heq).1.symm h.1.2
        | escaped c =>
          obtain ⟨rfl, hrest⟩ := List.cons.inj (List.cons.inj heq).2
          rw [ih h.2 h'.2 hrest]

/-- The backslashes at the end of a body come in pairs. -/
theorem QuotedBody.even_backslashes (h : QuotedBody quote body text) {before : List Char} {k : Nat}
    (hbody : body = before ++ List.replicate k '\\') (hbefore : '\\' ∉ before.getLast?) :
    Even k := by
  have htail {c : Char} {cs : List Char} (h : '\\' ∉ (c :: cs).getLast?) : '\\' ∉ cs.getLast? := by
    cases cs with
    | nil => simp
    | cons d cs => rwa [List.getLast?_cons_cons] at h
  induction h generalizing before k with
  | nil =>
    have hk := congrArg List.length hbody
    rw [List.length_append, List.length_replicate, List.length_nil] at hk
    exact ⟨0, by omega⟩
  | plain hq hb _ ih =>
    cases before with
    | nil =>
      cases k with
      | zero => cases hbody
      | succ k => exact absurd (List.cons.inj hbody).1 hb
    | cons d before => exact ih (List.cons.inj hbody).2 (htail hbefore)
  | escaped hc _ ih =>
    -- the pair of a backslash and its character stands before the run, or it is the start of the run
    rcases before with _ | ⟨d, _ | ⟨e, before⟩⟩
    · rcases k with _ | _ | k
      · cases hbody
      · cases hbody
      · have hk := @ih [] k (List.cons.inj (List.cons.inj hbody).2).2 (by simp)
        exact hk.add even_two
    · exact absurd (congrArg some (List.cons.inj hbody).1.symm) hbefore
    · exact ih (List.cons.inj (List.cons.inj hbody).2).2 (htail (htail hbefore))

/-! ## Literals in a text -/

theorem exists_quotedBody {cs lexeme rest : List Char} {v : String}
    (h : cut? cs = some ⟨.ok (.str v), lexeme, rest⟩) :
    ∃ quote body, IsQuote quote ∧ lexeme = quote :: (body ++ [quote]) ∧
      QuotedBody quote body v.toList := by
  cases cut?_spells h with
  | @string quote body text hq hbody => exact ⟨quote, body, hq, rfl, by rwa [String.toList_ofList]⟩
  | operator ht => simp [operators] at ht

/-- Every text can be written as a string literal, between quotes of either kind: followed by a
space, the literal is scanned as one token for the text, and what follows as it is alone, at places
moved by the length of the literal. And every string literal is characters, some after a backslash,
that can be told apart in one way; they are its text in order, so the text is shorter than what
stands between the quotes by the backslashes that are not meant, and the backslashes before the
closing quote are even in number. -/
theorem tokenize_quoted :
    (∀ (quote : Char) (s : String) (cs : List Char), IsQuote quote →
      tokenize (quoted quote s ++ ' ' :: cs) =
        ((tokenize cs).map fun more => ⟨.str s, 0⟩ ::
          more.map (Lexeme.move (· + (Text.byteLength (quoted quote s) + 1)))).mapError
          (Error.move (· + (Text.byteLength (quoted quote s) + 1)))) ∧
    ∀ (cs lexeme rest : List Char) (v : String),
      cut? cs = some ⟨.ok (.str v), lexeme, rest⟩ →
      ∃ quote body written, IsQuote quote ∧ lexeme = quote :: (body ++ [quote]) ∧
        (∀ w ∈ written, w.Allowed quote) ∧ body = written.flatMap Written.chars ∧
        (∀ other : List Written, (∀ w ∈ other, w.Allowed quote) →
          body = other.flatMap Written.chars → other = written) ∧
        v.toList = written.map Written.char ∧
        v.length + written.countP Written.isEscaped = body.length ∧
        ∀ before k, body = before ++ List.replicate k '\\' → '\\' ∉ before.getLast? → Even k := by
  constructor
  · intro quote s cs hq
    have h := (covers_quoted hq s cs).tokenize
    rw [Text.byteLength_append, List.append_assoc] at h
    exact h
  · intro cs lexeme rest v h
    obtain ⟨quote, body, hq, hlexeme, hbody⟩ := exists_quotedBody h
    obtain ⟨written, hallowed, rfl, htext⟩ := quotedBody_iff.1 hbody
    refine ⟨quote, _, written, hq, hlexeme, hallowed, rfl, ?_, htext, ?_, ?_⟩
    · exact fun other hother heq => eq_of_flatMap_chars hallowed hother heq.symm
    · rw [← String.length_toList, htext, length_flatMap_chars]
    · exact fun before k hbefore hlast => hbody.even_backslashes hbefore hlast

/-- A backslash before a line feed, a quote and a character of two bytes, written between double
quotes; and a literal that ends with two backslashes, of which one is meant. -/
theorem tokenize_quoted_backslashes :
    tokenize "\"\\\\\n\\\"é\" x".toList = .ok [⟨.str "\\\n\"é", 0⟩, ⟨.ident "x", 10⟩] ∧
    ∃ written : List Written, "a\\\\".toList = written.flatMap Written.chars ∧
      written.countP Written.isEscaped = 1 := by
  constructor
  · have hrest : tokenize "x".toList = .ok [⟨.ident "x", 0⟩] := by cbv
    have h := tokenize_quoted.1 '"' "\\\n\"é" "x".toList (.inl rfl)
    rw [hrest] at h
    exact h
  · have hcut : cut? "'a\\\\'".toList = some ⟨.ok (.str "a\\"), "'a\\\\'".toList, []⟩ := by cbv
    obtain ⟨quote, body, written, -, hlexeme, -, hbody, -, -, hlength, -⟩ :=
      tokenize_quoted.2 _ _ _ _ hcut
    have hlexeme : '\x27' :: ("a\\\\".toList ++ ['\x27']) = quote :: (body ++ [quote]) := hlexeme
    obtain ⟨rfl, htail⟩ := List.cons.inj hlexeme
    have hsame : "a\\\\".toList = body := List.append_cancel_right htail
    refine ⟨written, hsame.trans hbody, ?_⟩
    rw [← hsame] at hlength
    have hlengths : "a\\".length = 2 ∧ "a\\\\".toList.length = 3 := by decide
    omega

end ElementQuery.Token
