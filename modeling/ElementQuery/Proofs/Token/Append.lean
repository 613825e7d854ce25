/-
Texts one after another. Every text that is cut into lexemes is built from them, and the lexemes of
two texts are those of their concatenation, as long as the second one could not go on with an
identifier or an integer at the end of the first: no other lexeme can grow at its end.
-/
import ElementQuery.Proofs.Token.Lexes

namespace ElementQuery.Token

/-- A lexeme has characters, and they and what follows them are the text. -/
def Cut.Splits (cut : Cut) (cs : List Char) : Prop :=
  ∃ c ds, cut.lexeme = c :: ds ∧ cs = c :: (ds ++ cut.rest)

/-- A lexeme with more text after what follows it. -/
def Cut.extend (cut : Cut) (more : List Char) : Cut := { cut with rest := cut.rest ++ more }

variable {cs more : List Char} {cut : Cut}

theorem takeWhile_append_more (cs : List Char) {p : Char → Bool}
    (hmore : ∀ c ∈ more.head?, p c = false) :
    (cs ++ more).takeWhile p = cs.takeWhile p ∧
      (cs ++ more).dropWhile p = cs.dropWhile p ++ more := by
  have hsplit : cs ++ more = cs.takeWhile p ++ (cs.dropWhile p ++ more) := by
    rw [← List.append_assoc, List.takeWhile_append_dropWhile]
  rw [hsplit]
  refine takeWhile_append_of_head? (fun c hc => List.mem_takeWhile_imp hc) ?_
  cases hdrop : cs.dropWhile p with
  | nil => simpa using hmore
  | cons d ds =>
    rintro c hc
    cases hc
    have := List.head?_dropWhile_not p cs
    rw [hdrop] at this
    simpa using this

/-! ## Strings -/

theorem quotedBody?_splits {quote : Char} {passed body after : List Char}
    (h : quotedBody? quote passed cs = some (body, after)) :
    passed.reverse ++ cs = body ++ quote :: after := by
  fun_induction quotedBody? quote passed cs with
  | case1 => cases h
  | case2 => cases h
  | case3 passed c cs hc ih => simpa using ih h
  | case4 =>
    cases h
    rfl
  | case5 => cases h
  | case6 passed c cs hcs hq hb ih => simpa using ih h

theorem quotedBody?_extend {quote : Char} {passed body after : List Char} (hq : quote ≠ '\\')
    (h : quotedBody? quote passed cs = some (body, after)) :
    quotedBody? quote passed (cs ++ more) = some (body, after ++ more) := by
  fun_induction quotedBody? quote passed cs with
  | case1 => cases h
  | case2 => cases h
  | case3 passed c cs hc ih =>
    rw [List.cons_append, List.cons_append, quotedBody?, if_neg hc]
    exact ih h
  | case4 passed cs hcs =>
    cases h
    rw [List.cons_append, quotedBody?, if_pos rfl]
    rintro c cs rfl
    exact absurd rfl hq
  | case5 => cases h
  | case6 passed c cs hcs hc hb ih =>
    rw [List.cons_append, quotedBody?, if_neg hc, if_neg hb]
    · exact ih h
    · rintro d ds rfl
      exact absurd rfl hb

theorem string?_splits (h : string? cs = some cut) : cut.Splits cs := by
  cases cs with
  | nil => cases h
  | cons quote cs =>
    rw [string?] at h
    split at h
    · obtain ⟨⟨body, after⟩, hbody, rfl⟩ := Option.map_eq_some_iff.1 h
      exact ⟨quote, body ++ [quote], rfl, by simpa using quotedBody?_splits hbody⟩
    · cases h

theorem string?_extend (h : string? cs = some cut) :
    string? (cs ++ more) = some (cut.extend more) := by
  cases cs with
  | nil => cases h
  | cons quote cs =>
    rw [string?] at h
    split at h
    · rename_i hquote
      obtain ⟨⟨body, after⟩, hbody, rfl⟩ := Option.map_eq_some_iff.1 h
      have hq : quote ≠ '\\' := by rcases hquote with rfl | rfl <;> decide
      rw [List.cons_append, string?, if_pos hquote, quotedBody?_extend hq hbody]
      rfl
    · cases h

/-! ## Integers -/

/-- An integer whose sign is already known. -/
def number? (sign cs : List Char) : Option Cut :=
  if (cs.takeWhile Char.isDigit).isEmpty then none
  else some ⟨ofInteger (sign ++ cs.takeWhile Char.isDigit), sign ++ cs.takeWhile Char.isDigit,
    cs.dropWhile Char.isDigit⟩

/-- The sign of an integer is told by the first character. -/
theorem integer?_cons (c : Char) (cs : List Char) :
    ∃ sign after, c :: cs = sign ++ after ∧
      ∀ more, integer? (c :: cs ++ more) = number? sign (after ++ more) := by
  by_cases hc : c = '-'
  · subst hc
    exact ⟨['-'], cs, rfl, fun more => rfl⟩
  · refine ⟨[], c :: cs, rfl, fun more => ?_⟩
    rw [List.cons_append, integer?]
    · rfl
    · rintro after ⟨⟩
      exact hc rfl

theorem number?_splits {sign : List Char} (h : number? sign cs = some cut) :
    cut.Splits (sign ++ cs) := by
  unfold number? at h
  split at h
  · cases h
  · rename_i hdigits
    cases h
    have hne : sign ++ cs.takeWhile Char.isDigit ≠ [] := by simp_all
    obtain ⟨c, ds, hds⟩ := List.exists_cons_of_ne_nil hne
    refine ⟨c, ds, hds, ?_⟩
    rw [← List.cons_append, ← hds, List.append_assoc, List.takeWhile_append_dropWhile]

theorem number?_extend {sign : List Char} (hmore : ∀ c ∈ more.head?, c.isDigit = false) :
    number? sign (cs ++ more) = (number? sign cs).map (·.extend more) := by
  obtain ⟨htake, hdrop⟩ := takeWhile_append_more cs hmore
  unfold number?
  rw [htake, hdrop]
  split <;> rfl

theorem integer?_splits (h : integer? cs = some cut) : cut.Splits cs := by
  cases cs with
  | nil => cases h
  | cons c cs =>
    obtain ⟨sign, after, heq, hint⟩ := integer?_cons c cs
    have := hint []
    rw [List.append_nil, List.append_nil, h] at this
    rw [heq]
    exact number?_splits this.symm

theorem integer?_extend (c : Char) (hmore : ∀ c ∈ more.head?, c.isDigit = false) :
    integer? (c :: cs ++ more) = (integer? (c :: cs)).map (·.extend more) := by
  obtain ⟨sign, after, heq, hint⟩ := integer?_cons c cs
  have := hint []
  rw [List.append_nil, List.append_nil] at this
  rw [hint, this, number?_extend hmore]

/-! ## Operators and identifiers -/

theorem operator?_display {t : Token} (ht : t ∈ operators) (rest : List Char) :
    operator? (t.display.toList ++ rest) = some ⟨.ok t, t.display.toList, rest⟩ := by
  simp only [operators, List.mem_cons, List.not_mem_nil, or_false] at ht
  rcases ht with rfl | rfl | rfl | rfl | rfl | rfl | rfl | rfl | rfl <;> rfl

theorem operator?_eq_some (h : operator? cs = some cut) :
    ∃ t rest, t ∈ operators ∧ cs = t.display.toList ++ rest ∧
      cut = ⟨.ok t, t.display.toList, rest⟩ := by
  obtain ⟨t, ht, hcut⟩ := Option.map_eq_some_iff.1 h
  have hstarts := List.find?_some ht
  obtain ⟨rest, rfl⟩ := List.isPrefixOf_iff_prefix.1 hstarts
  have ht := List.mem_of_find?_eq_some ht
  rw [operator?_display ht] at h
  cases h
  exact ⟨t, rest, ht, rfl, rfl⟩

theorem operator?_splits (h : operator? cs = some cut) : cut.Splits cs := by
  obtain ⟨t, rest, ht, rfl, rfl⟩ := operator?_eq_some h
  obtain ⟨d, ds, hd, -⟩ := operator_cons ht
  exact ⟨d, ds, hd, by rw [hd, List.cons_append]⟩

theorem operator?_extend (h : operator? cs = some cut) :
    operator? (cs ++ more) = some (cut.extend more) := by
  obtain ⟨t, rest, ht, rfl, rfl⟩ := operator?_eq_some h
  rw [List.append_assoc, operator?_display ht]
  rfl

theorem identifier?_splits (h : identifier? cs = some cut) :
    cut.Splits cs := by
  cases cs with
  | nil => cases h
  | cons c cs =>
    rw [identifier?] at h
    split at h
    · cases h
      exact ⟨c, _, rfl, by rw [List.takeWhile_append_dropWhile]⟩
    · cases h

theorem identifier?_extend (c : Char) (hmore : ∀ c ∈ more.head?, isIdentRest c = false) :
    identifier? (c :: cs ++ more) = (identifier? (c :: cs)).map (·.extend more) := by
  obtain ⟨htake, hdrop⟩ := takeWhile_append_more cs hmore
  rw [List.cons_append, identifier?, identifier?]
  simp only [htake, hdrop]
  split <;> rfl

/-! ## Lexemes -/

theorem cut?_splits (h : cut? cs = some cut) : cut.Splits cs := by
  simp only [cut?, Option.or_eq_some_iff] at h
  rcases h with h | ⟨-, h | ⟨-, h | ⟨-, h⟩⟩⟩
  · exact string?_splits h
  · exact integer?_splits h
  · exact operator?_splits h
  · exact identifier?_splits h

/-- What starts with a quote is a string or no lexeme. -/
theorem cut?_quote {c : Char} (hc : c = '"' ∨ c = '\x27') (cs : List Char) :
    cut? (c :: cs) = string? (c :: cs) := by
  rcases hc with rfl | rfl <;> exact Option.or_none

theorem isIdentStart_of_identifier? {c : Char} (h : identifier? (c :: cs) = some cut) :
    isIdentStart c = true := by
  rw [identifier?] at h
  split at h
  · assumption
  · cases h

/-- A lexeme does not grow at its end if what is put after the text could not go on with an
identifier. -/
theorem cut?_extend {us : List Token} (hmore : Separate more us) (h : cut? cs = some cut) :
    cut? (cs ++ more) = some (cut.extend more) := by
  cases cs with
  | nil => cases h
  | cons c cs =>
    by_cases hc : c = '"' ∨ c = '\x27'
    · rw [cut?_quote hc] at h
      rw [List.cons_append, cut?_quote hc]
      exact string?_extend h
    · have hstring (cs : List Char) : string? (c :: cs) = none := by rw [string?, if_neg hc]
      rw [cut?, hstring, Option.none_or, Option.or_eq_some_iff, Option.or_eq_some_iff] at h
      rw [List.cons_append, cut?, hstring, Option.none_or, ← List.cons_append,
        integer?_extend c hmore.isDigit, identifier?_extend c hmore.apart]
      -- a lexeme of one kind stays before those of the later kinds
      rcases h with h | ⟨hinteger, h | ⟨-, h⟩⟩
      · rw [h]
        rfl
      · rw [hinteger, operator?_extend h]
        rfl
      · rw [hinteger, h, List.cons_append,
          operator?_of_isIdentStart (isIdentStart_of_identifier? h)]
        rfl

/-! ## Whole texts -/

variable {ts us : List Token}

theorem lexes_dropWhile (h : Lexes (cs.dropWhile Text.isBlank) ts) : Lexes cs ts := by
  induction cs with
  | nil => exact h
  | cons c cs ih =>
    by_cases hc : Text.isBlank c = true
    · rw [List.dropWhile_cons_of_pos hc] at h
      exact .blank hc (ih h)
    · rwa [List.dropWhile_cons_of_neg hc] at h

theorem lexes_of_scan {bound offset : Nat} {lexemes : List Lexeme} (hb : cs.length ≤ bound)
    (h : scan bound offset cs = .ok lexemes) : Lexes cs (lexemes.map Lexeme.token) := by
  induction bound generalizing offset cs lexemes with
  | zero =>
    cases h
    rw [List.length_eq_zero_iff.1 (Nat.le_zero.1 hb)]
    exact .nil
  | succ bound ih =>
    refine lexes_dropWhile ?_
    rw [scan] at h
    have hlength := (List.dropWhile_suffix Text.isBlank (l := cs)).length_le
    have hhead := List.head?_dropWhile_not Text.isBlank cs
    generalize cs.dropWhile Text.isBlank = ds at h hlength hhead
    cases ds with
    | nil =>
      cases h
      exact .nil
    | cons d ds =>
      dsimp only at h
      split at h
      · cases h
      · cases h
      · rename_i t lexeme rest hcut
        obtain ⟨c, es, rfl, heq⟩ := cut?_splits hcut
        cases heq
        split at h
        · cases h
        · rename_i lexemes' hscan
          cases h
          refine .token ?_ hcut (ih ?_ hscan)
          · simpa using hhead
          · simp only [List.length_cons, List.length_append] at hlength
            show rest.length ≤ bound
            omega

/-- Every text that is cut into lexemes is built from them. -/
theorem lexes_of_tokenize {lexemes : List Lexeme} (h : tokenize cs = .ok lexemes) :
    Lexes cs (lexemes.map Lexeme.token) :=
  lexes_of_scan (Nat.le_refl _) h

/-- The tokens of two texts, one after the other, are those of the first and then those of the
second. -/
theorem Lexes.append (h : Lexes cs ts) (hmore : Separate more us) :
    Lexes (cs ++ more) (ts ++ us) := by
  induction h with
  | nil => exact hmore.lexes
  | blank hc h ih => exact .blank hc ih
  | token hc hcut h ih =>
    have hcut' := cut?_extend hmore hcut
    rw [List.cons_append, List.append_assoc] at hcut' ⊢
    exact .token hc hcut' ih

end ElementQuery.Token
