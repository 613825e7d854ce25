/-
What a lexeme is, said without a reader: a string literal, an integer, an operator or an
identifier, and the token that it stands for. An integer that no word holds is a lexeme too, but it
stands for a fault.

Main statement: what is cut off the front of a text is its longest lexeme, and nothing is cut off
exactly if no lexeme starts there. The kinds of lexemes are told apart by their first character, so
only an integer or an identifier can start with a shorter lexeme.
-/
import ElementQuery.Proofs.Token.Append

namespace ElementQuery.Token

/-! ## Lexemes -/

/-- The body of a string literal between quotes of one kind, and the text that it stands for. -/
inductive QuotedBody (quote : Char) : List Char → List Char → Prop
  | nil : QuotedBody quote [] []
  | plain {c : Char} {cs text : List Char} (hq : c ≠ quote) (hb : c ≠ '\\')
      (h : QuotedBody quote cs text) : QuotedBody quote (c :: cs) (c :: text)
  | escaped {c : Char} {cs text : List Char} (hc : c ≠ '\n') (h : QuotedBody quote cs text) :
      QuotedBody quote ('\\' :: c :: cs) (c :: text)

/-- The characters of a lexeme, and what it says. -/
inductive Spells : List Char → Except Fault Token → Prop
  | string {quote : Char} {body text : List Char} (hq : quote = '"' ∨ quote = '\x27')
      (h : QuotedBody quote body text) :
      Spells (quote :: (body ++ [quote])) (.ok (.str (String.ofList text)))
  | integer {cs : List Char} {i : Int64} (h : Text.Numeral ['-'] cs i.toInt) :
      Spells cs (.ok (.int i))
  | outOfRange {cs : List Char} {z : Int} (h : Text.Numeral ['-'] cs z) (hz : Text.OutOfRange z) :
      Spells cs (.error (.integerOutOfRange (String.ofList cs)))
  | operator {t : Token} (h : t ∈ operators) : Spells t.display.toList (.ok t)
  | identifier {x : String} (h : IsIdentifier x) : Spells x.toList (.ok (.ident x))

/-- A lexeme at the front of a text, with what follows it, and no lexeme there is longer. -/
structure Longest (cs : List Char) (said : Except Fault Token) (lexeme rest : List Char) :
    Prop where
  splits : cs = lexeme ++ rest
  spells : Spells lexeme said
  longest : ∀ other said', other <+: cs → Spells other said' → other.length ≤ lexeme.length

/-- No lexeme starts a text. -/
def Unspelled (cs : List Char) : Prop := ∀ lexeme said, lexeme <+: cs → ¬ Spells lexeme said

variable {cs rest lexeme : List Char} {said : Except Fault Token} {cut : Cut}

/-! ## What is cut off is a lexeme -/

theorem QuotedBody.unescape {quote : Char} {body text : List Char}
    (h : QuotedBody quote body text) : unescape body = text := by
  induction h with
  | nil => rfl
  | plain hq hb _ ih =>
    rw [Token.unescape, ih]
    · rintro d ds rfl
      exact absurd rfl hb
    · rintro rfl
      exact absurd rfl hb
  | escaped hc _ ih => rw [Token.unescape, ih]

theorem quotedBody_of_quotedBody? {quote : Char} {passed body after : List Char}
    (h : quotedBody? quote passed cs = some (body, after)) :
    ∃ inner text, body = passed.reverse ++ inner ∧ QuotedBody quote inner text := by
  fun_induction quotedBody? quote passed cs with
  | case1 => cases h
  | case2 => cases h
  | case3 passed c cs hc ih =>
    obtain ⟨inner, text, rfl, hinner⟩ := ih h
    exact ⟨'\\' :: c :: inner, c :: text, by simp, .escaped hc hinner⟩
  | case4 =>
    cases h
    exact ⟨[], [], by simp, .nil⟩
  | case5 => cases h
  | case6 passed c cs hcs hq hb ih =>
    obtain ⟨inner, text, rfl, hinner⟩ := ih h
    exact ⟨c :: inner, c :: text, by simp, .plain hq hb hinner⟩

theorem string?_spells (h : string? cs = some cut) : Spells cut.lexeme cut.token := by
  cases cs with
  | nil => cases h
  | cons quote cs =>
    rw [string?] at h
    split at h
    · rename_i hquote
      obtain ⟨⟨body, after⟩, hbody, rfl⟩ := Option.map_eq_some_iff.1 h
      obtain ⟨inner, text, rfl, hinner⟩ := quotedBody_of_quotedBody? hbody
      dsimp only [List.reverse_nil, List.nil_append]
      rw [hinner.unescape]
      exact .string hquote hinner
    · cases h

theorem ofInteger_eq {z : Int} (h : Text.Numeral ['-'] cs z) :
    ofInteger cs = match Text.toWord? z with
      | some i => .ok (.int i)
      | none => .error (.integerOutOfRange (String.ofList cs)) := by
  have hread : Text.readInt? cs = some z := Text.readInt?_eq_some_iff.2 (h.mono (by simp))
  cases hz : Text.toWord? z with
  | none => simp only [ofInteger, Text.readWord?, hread, Option.bind_some, hz]
  | some i => simp only [ofInteger, Text.readWord?, hread, Option.bind_some, hz]

/-- An integer lexeme says its number, or that it is out of range. -/
theorem spells_ofInteger {z : Int} (h : Text.Numeral ['-'] cs z) : Spells cs (ofInteger cs) := by
  rw [ofInteger_eq h]
  cases hz : Text.toWord? z with
  | none => exact .outOfRange h (Text.toWord?_eq_none_iff.1 hz)
  | some i =>
    rw [← Text.toWord?_eq_some_iff.1 hz] at h
    exact .integer h

theorem digits_takeWhile (h : ¬ (cs.takeWhile Char.isDigit).isEmpty = true) :
    ∃ n, Text.Digits (cs.takeWhile Char.isDigit) n :=
  ⟨_, fun hnil => h (by rw [hnil]; rfl), fun c hc => List.mem_takeWhile_imp hc, rfl⟩

theorem integer?_spells (h : integer? cs = some cut) : Spells cut.lexeme cut.token := by
  unfold integer? at h
  split at h
  rename_i sign after hsign
  dsimp only at h
  split at h
  · cases h
  · rename_i hdigits
    cases h
    obtain ⟨n, hn⟩ := digits_takeWhile hdigits
    split at hsign
    · cases hsign
      exact spells_ofInteger (.minus (by simp) hn)
    · cases hsign
      exact spells_ofInteger (.bare hn)

theorem operator?_spells (h : operator? cs = some cut) : Spells cut.lexeme cut.token := by
  obtain ⟨t, rest, ht, rfl, rfl⟩ := operator?_eq_some h
  exact .operator ht

theorem identifier?_spells (h : identifier? cs = some cut) : Spells cut.lexeme cut.token := by
  cases cs with
  | nil => cases h
  | cons c cs =>
    rw [identifier?] at h
    split at h
    · rename_i hc
      cases h
      have hx : IsIdentifier (String.ofList (c :: cs.takeWhile isIdentRest)) := by
        unfold IsIdentifier
        rw [String.toList_ofList]
        exact ⟨hc, List.all_eq_true.2 fun d hd => List.mem_takeWhile_imp hd⟩
      have hspells := Spells.identifier hx
      rwa [String.toList_ofList] at hspells
    · cases h

theorem cut?_spells (h : cut? cs = some cut) : Spells cut.lexeme cut.token := by
  simp only [cut?, Option.or_eq_some_iff] at h
  rcases h with h | ⟨-, h | ⟨-, h | ⟨-, h⟩⟩⟩
  · exact string?_spells h
  · exact integer?_spells h
  · exact operator?_spells h
  · exact identifier?_spells h

/-! ## A lexeme is cut off, or a longer one -/

/-- A lexeme cut off a text is the given one, or it is longer. -/
def Cut.Reaches (cut : Cut) (said : Except Fault Token) (lexeme rest : List Char) : Prop :=
  cut = ⟨said, lexeme, rest⟩ ∨ lexeme.length < cut.lexeme.length

/-- A run of characters that is cut off with all of its kind after it is cut off alone, or it gets
longer. -/
theorem run_reaches (p : Char → Bool) (read : List Char → Except Fault Token)
    (lexeme rest : List Char) :
    Cut.Reaches ⟨read (lexeme ++ rest.takeWhile p), lexeme ++ rest.takeWhile p, rest.dropWhile p⟩
      (read lexeme) lexeme rest := by
  cases rest with
  | nil => exact .inl (by simp)
  | cons d ds =>
    by_cases hd : p d = true
    · exact .inr (by simp [List.takeWhile_cons_of_pos hd])
    · exact .inl (by simp [List.takeWhile_cons_of_neg hd, List.dropWhile_cons_of_neg hd])

theorem QuotedBody.quotedBody? {quote : Char} {body text : List Char}
    (h : QuotedBody quote body text) (hq : quote ≠ '\\') (passed rest : List Char) :
    quotedBody? quote passed (body ++ quote :: rest) = some (passed.reverse ++ body, rest) := by
  induction h generalizing passed with
  | nil =>
    rw [List.nil_append, Token.quotedBody?, if_pos rfl, List.append_nil]
    rintro c cs rfl
    exact absurd rfl hq
  | plain hc hb _ ih =>
    rw [List.cons_append, Token.quotedBody?, if_neg hc, if_neg hb, ih]
    · simp
    · rintro d ds rfl
      exact absurd rfl hb
  | escaped hc _ ih =>
    rw [List.cons_append, List.cons_append, Token.quotedBody?, if_neg hc, ih]
    simp

theorem cut?_string {quote : Char} {body text : List Char} (hq : quote = '"' ∨ quote = '\x27')
    (h : QuotedBody quote body text) (rest : List Char) :
    cut? (quote :: (body ++ [quote]) ++ rest) =
      some ⟨.ok (.str (String.ofList text)), quote :: (body ++ [quote]), rest⟩ := by
  have hne : quote ≠ '\\' := by rcases hq with rfl | rfl <;> decide
  rw [List.cons_append, List.append_assoc, List.singleton_append, cut?_quote hq, string?,
    if_pos hq, h.quotedBody? hne, Option.map_some]
  dsimp only [List.reverse_nil, List.nil_append]
  rw [h.unescape]

/-- Digits after a sign are cut off with all digits after them. -/
theorem number?_reaches (sign : List Char) {digits : List Char} {n : Nat}
    (h : Text.Digits digits n) (rest : List Char) :
    ∃ cut, number? sign (digits ++ rest) = some cut ∧
      cut.Reaches (ofInteger (sign ++ digits)) (sign ++ digits) rest := by
  have htake : (digits ++ rest).takeWhile Char.isDigit = digits ++ rest.takeWhile Char.isDigit :=
    List.takeWhile_append_of_pos h.isDigit
  have hdrop : (digits ++ rest).dropWhile Char.isDigit = rest.dropWhile Char.isDigit :=
    List.dropWhile_append_of_pos h.isDigit
  have hne : ¬ ((digits ++ rest).takeWhile Char.isDigit).isEmpty = true := by
    simp [htake, h.ne_nil]
  unfold number?
  rw [if_neg hne, htake, hdrop]
  rw [← List.append_assoc]
  exact ⟨_, rfl, run_reaches Char.isDigit ofInteger (sign ++ digits) rest⟩

theorem cut?_of_integer? {c : Char} (hc : ¬ (c = '"' ∨ c = '\x27'))
    (h : integer? (c :: cs) = some cut) : cut? (c :: cs) = some cut := by
  rw [cut?, string?, if_neg hc, h]
  rfl

theorem cut?_numeral {z : Int} (h : Text.Numeral ['-'] lexeme z) (rest : List Char) :
    ∃ cut, cut? (lexeme ++ rest) = some cut ∧ cut.Reaches (ofInteger lexeme) lexeme rest := by
  cases h with
  | bare hd =>
    obtain ⟨cut, hcut, hreaches⟩ := number?_reaches [] hd rest
    obtain ⟨c, ds, rfl⟩ := List.exists_cons_of_ne_nil hd.ne_nil
    refine ⟨cut, cut?_of_integer? ?_ ?_, hreaches⟩
    · rintro (rfl | rfl)
      · exact hd.head_ne '"' rfl rfl
      · exact hd.head_ne '\x27' rfl rfl
    · rw [integer?]
      · exact hcut
      · rintro es ⟨⟩
        exact hd.head_ne '-' rfl rfl
  | plus hs _ => simp at hs
  | minus _ hd =>
    obtain ⟨cut, hcut, hreaches⟩ := number?_reaches ['-'] hd rest
    exact ⟨cut, cut?_of_integer? (by decide) hcut, hreaches⟩

theorem cut?_operator {t : Token} (ht : t ∈ operators) (rest : List Char) :
    cut? (t.display.toList ++ rest) = some ⟨.ok t, t.display.toList, rest⟩ := by
  simp only [operators, List.mem_cons, List.not_mem_nil, or_false] at ht
  rcases ht with rfl | rfl | rfl | rfl | rfl | rfl | rfl | rfl | rfl <;> rfl

theorem cut?_identifier {x : String} (hx : IsIdentifier x) (rest : List Char) :
    ∃ cut, cut? (x.toList ++ rest) = some cut ∧ cut.Reaches (.ok (.ident x)) x.toList rest := by
  obtain ⟨c, cs, hcs, hc, hrest⟩ := hx.exists_cons
  have htake : (cs ++ rest).takeWhile isIdentRest = cs ++ rest.takeWhile isIdentRest :=
    List.takeWhile_append_of_pos hrest
  have hdrop : (cs ++ rest).dropWhile isIdentRest = rest.dropWhile isIdentRest :=
    List.dropWhile_append_of_pos hrest
  have hquote : ¬ (c = '"' ∨ c = '\x27') := by
    rintro (rfl | rfl) <;> cases hc
  have hminus : c ≠ '-' := ne_of_class hc rfl
  have hinteger : integer? (c :: (cs ++ rest)) = none := by
    simp [integer?, hminus, isDigit_of_isIdentStart hc]
  have hx' : x = String.ofList (c :: cs) := by rw [← hcs, String.ofList_toList]
  rw [hcs, List.cons_append, cut?, string?, if_neg hquote, hinteger,
    operator?_of_isIdentStart hc, identifier?, if_pos hc, htake, hdrop]
  rw [hx', ← List.cons_append]
  exact ⟨_, rfl, run_reaches isIdentRest (fun x => .ok (.ident (String.ofList x))) (c :: cs) rest⟩

/-- From a text that starts with a lexeme, that lexeme or a longer one is cut off. -/
theorem Spells.cut? (h : Spells lexeme said) (rest : List Char) :
    ∃ cut, cut? (lexeme ++ rest) = some cut ∧ cut.Reaches said lexeme rest := by
  cases h with
  | string hq hbody => exact ⟨_, cut?_string hq hbody rest, .inl rfl⟩
  | @integer _ i hn =>
    have hsaid : ofInteger lexeme = .ok (.int i) := by rw [ofInteger_eq hn, Text.toWord?_toInt]
    rw [← hsaid]
    exact cut?_numeral hn rest
  | outOfRange hn hz =>
    have hsaid : ofInteger lexeme = .error (.integerOutOfRange (String.ofList lexeme)) := by
      rw [ofInteger_eq hn, Text.toWord?_eq_none_iff.2 hz]
    rw [← hsaid]
    exact cut?_numeral hn rest
  | operator ht => exact ⟨_, cut?_operator ht rest, .inl rfl⟩
  | identifier hx => exact cut?_identifier hx rest

/-! ## The longest lexeme -/

/-- What is cut off the front of a text is its longest lexeme. -/
theorem cut?_eq_some_iff : cut? cs = some ⟨said, lexeme, rest⟩ ↔ Longest cs said lexeme rest := by
  constructor
  · intro h
    obtain ⟨c, ds, hlexeme, hcs⟩ := cut?_splits h
    refine ⟨by rw [hcs, ← List.cons_append, ← hlexeme], cut?_spells h, ?_⟩
    rintro other said' ⟨after, rfl⟩ hother
    obtain ⟨cut, hcut, hreaches⟩ := hother.cut? after
    cases h.symm.trans hcut
    rcases hreaches with heq | hlt
    · cases heq
      exact Nat.le_refl _
    · exact Nat.le_of_lt hlt
  · rintro ⟨rfl, hspells, hlongest⟩
    obtain ⟨cut, hcut, hreaches⟩ := hspells.cut? rest
    rcases hreaches with rfl | hlt
    · exact hcut
    · obtain ⟨c, ds, hlexeme, hcs⟩ := cut?_splits hcut
      have hstarts : cut.lexeme <+: lexeme ++ rest := by
        rw [hcs, hlexeme]
        exact ⟨cut.rest, rfl⟩
      have := hlongest cut.lexeme cut.token hstarts (cut?_spells hcut)
      omega

/-- Nothing is cut off exactly if no lexeme starts the text. -/
theorem cut?_eq_none_iff : cut? cs = none ↔ Unspelled cs := by
  constructor
  · rintro h lexeme said ⟨rest, rfl⟩ hspells
    obtain ⟨cut, hcut, -⟩ := hspells.cut? rest
    rw [h] at hcut
    cases hcut
  · intro h
    cases hcut : Token.cut? cs with
    | none => rfl
    | some cut =>
      obtain ⟨hsplits, hspells, -⟩ := cut?_eq_some_iff.1 hcut
      exact absurd hspells (h _ _ ⟨_, hsplits.symm⟩)

end ElementQuery.Token
