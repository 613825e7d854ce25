/-
Texts and the tokens they are cut into. `Lexes` builds a text from its end to its front, a white
space character or a lexeme at a time, and every text so built is cut into exactly its tokens.

Operators and string literals can be put before any text; an identifier or an integer only before
a text that could not go on with it.
-/
import Mathlib
import ElementQuery.Proofs.Text.Integer
import ElementQuery.Token.Lexer

namespace ElementQuery.Token

/-- A text is white space and lexemes that stand for the given tokens. -/
inductive Lexes : List Char → List Token → Prop
  | nil : Lexes [] []
  | blank {c : Char} {cs : List Char} {ts : List Token} :
      Text.isBlank c = true → Lexes cs ts → Lexes (c :: cs) ts
  | token {c : Char} {cs rest : List Char} {t : Token} {ts : List Token} :
      Text.isBlank c = false → cut? (c :: (cs ++ rest)) = some ⟨.ok t, c :: cs, rest⟩ →
      Lexes rest ts → Lexes (c :: (cs ++ rest)) (t :: ts)

/-! ## Scanning -/

theorem scan_blank {c : Char} (hc : Text.isBlank c = true) (bound offset : Nat) (cs : List Char) :
    scan (bound + 1) offset (c :: cs) = scan (bound + 1) (offset + c.utf8Size) cs := by
  simp only [scan, List.takeWhile_cons_of_pos hc, List.dropWhile_cons_of_pos hc,
    Text.byteLength_cons, Nat.add_assoc]

theorem scan_token {c : Char} {cs rest : List Char} {t : Token} (hc : Text.isBlank c = false)
    (hcut : cut? (c :: (cs ++ rest)) = some ⟨.ok t, c :: cs, rest⟩) {bound offset : Nat}
    {lexemes : List Lexeme}
    (h : scan bound (offset + Text.byteLength (c :: cs)) rest = .ok lexemes) :
    scan (bound + 1) offset (c :: (cs ++ rest)) = .ok (⟨t, offset⟩ :: lexemes) := by
  have hc' : ¬ Text.isBlank c = true := by simp [hc]
  rw [scan]
  simp only [List.takeWhile_cons_of_neg hc', List.dropWhile_cons_of_neg hc', hcut,
    Text.byteLength_nil, Nat.add_zero, h]

theorem scan_of_lexes {cs : List Char} {ts : List Token} (h : Lexes cs ts) :
    ∀ bound offset, cs.length ≤ bound →
      ∃ lexemes, scan bound offset cs = .ok lexemes ∧ lexemes.map Lexeme.token = ts := by
  induction h with
  | nil =>
    intro bound offset _
    cases bound <;> exact ⟨[], rfl, rfl⟩
  | blank hc h ih =>
    intro bound offset hb
    rw [List.length_cons] at hb
    obtain ⟨bound, rfl⟩ : ∃ b, bound = b + 1 := ⟨bound - 1, by omega⟩
    obtain ⟨lexemes, hs, ht⟩ := ih (bound + 1) (offset + _) (by omega)
    exact ⟨lexemes, by rw [scan_blank hc, hs], ht⟩
  | token hc hcut h ih =>
    intro bound offset hb
    rw [List.length_cons, List.length_append] at hb
    obtain ⟨bound, rfl⟩ : ∃ b, bound = b + 1 := ⟨bound - 1, by omega⟩
    obtain ⟨lexemes, hs, ht⟩ := ih bound (offset + _) (by omega)
    exact ⟨_, scan_token hc hcut hs, by rw [List.map_cons, ht]⟩

/-- A text built from lexemes is cut into their tokens. -/
theorem tokenize_of_lexes {cs : List Char} {ts : List Token} (h : Lexes cs ts) :
    ∃ lexemes, tokenize cs = .ok lexemes ∧ lexemes.map Lexeme.token = ts :=
  scan_of_lexes h cs.length 0 (Nat.le_refl _)

/-! ## Operators and strings -/

variable {rest : List Char} {ts : List Token}

theorem lexes_space (h : Lexes rest ts) : Lexes (' ' :: rest) ts := .blank (by decide) h

theorem lexes_operator {t : Token} (ht : t ∈ operators) (h : Lexes rest ts) :
    Lexes (t.display.toList ++ rest) (t :: ts) := by
  simp only [operators, List.mem_cons, List.not_mem_nil, or_false] at ht
  rcases ht with rfl | rfl | rfl | rfl | rfl | rfl | rfl | rfl | rfl
  · exact @Lexes.token _ ['&'] _ _ _ (by decide) rfl h
  · exact @Lexes.token _ ['|'] _ _ _ (by decide) rfl h
  · exact @Lexes.token _ ['='] _ _ _ (by decide) rfl h
  · exact @Lexes.token _ ['>'] _ _ _ (by decide) rfl h
  all_goals exact @Lexes.token _ [] _ _ _ (by decide) rfl h

/-- A text that stands for itself between double quotes. -/
def Plain (s : String) : Prop := '"' ∉ s.toList ∧ '\\' ∉ s.toList

instance (s : String) : Decidable (Plain s) := inferInstanceAs (Decidable (_ ∧ _))

theorem quotedBody?_plain {cs : List Char} (hq : '"' ∉ cs) (hb : '\\' ∉ cs) (passed : List Char) :
    quotedBody? '"' passed (cs ++ '"' :: rest) = some (passed.reverse ++ cs, rest) := by
  induction cs generalizing passed with
  | nil => simp [quotedBody?]
  | cons c cs ih =>
    simp only [List.mem_cons, not_or] at hq hb
    have hc : c ≠ '"' := fun h => hq.1 h.symm
    have hc' : c ≠ '\\' := fun h => hb.1 h.symm
    rw [List.cons_append, quotedBody?, if_neg hc, if_neg hc', ih hq.2 hb.2]
    · simp
    · rintro d ds rfl
      exact absurd rfl hc'

theorem unescape_plain {cs : List Char} (hb : '\\' ∉ cs) : unescape cs = cs := by
  induction cs with
  | nil => rfl
  | cons c cs ih =>
    simp only [List.mem_cons, not_or] at hb
    have hc : c ≠ '\\' := fun h => hb.1 h.symm
    rw [unescape, ih hb.2]
    · rintro d ds rfl
      exact absurd rfl hc
    · rintro rfl
      exact absurd rfl hc

theorem lexes_string {s : String} (hs : Plain s) (h : Lexes rest ts) :
    Lexes ('"' :: (s.toList ++ '"' :: rest)) (.str s :: ts) := by
  have hcut : cut? ('"' :: ((s.toList ++ ['"']) ++ rest)) =
      some ⟨.ok (.str s), '"' :: (s.toList ++ ['"']), rest⟩ := by
    rw [List.append_assoc, List.singleton_append]
    simp [cut?, string?, quotedBody?_plain hs.1 hs.2, unescape_plain hs.2]
  have hl := Lexes.token (by decide) hcut h
  rwa [List.append_assoc, List.singleton_append] at hl

/-! ## Identifiers and integers -/

/-- A text of lexemes that could not go on with an identifier or an integer before it. -/
structure Separate (rest : List Char) (ts : List Token) : Prop where
  apart : ∀ c ∈ rest.head?, isIdentRest c = false
  lexes : Lexes rest ts

/-- A text that is an identifier. -/
def IsIdentifier (x : String) : Prop :=
  x.toList.head?.any isIdentStart = true ∧ x.toList.tail.all isIdentRest = true

instance (x : String) : Decidable (IsIdentifier x) := inferInstanceAs (Decidable (_ ∧ _))

theorem IsIdentifier.exists_cons {x : String} (hx : IsIdentifier x) :
    ∃ c cs, x.toList = c :: cs ∧ isIdentStart c = true ∧ ∀ d ∈ cs, isIdentRest d = true := by
  obtain ⟨hstart, hrest⟩ := hx
  cases hcs : x.toList with
  | nil =>
    rw [hcs] at hstart
    cases hstart
  | cons c cs =>
    rw [hcs] at hstart hrest
    exact ⟨c, cs, rfl, hstart, List.all_eq_true.1 hrest⟩

theorem takeWhile_append_of_head? {p : Char → Bool} {cs : List Char} (hcs : ∀ c ∈ cs, p c = true)
    (hr : ∀ c ∈ rest.head?, p c = false) :
    (cs ++ rest).takeWhile p = cs ∧ (cs ++ rest).dropWhile p = rest := by
  rw [List.takeWhile_append_of_pos hcs, List.dropWhile_append_of_pos hcs]
  cases rest with
  | nil => simp
  | cons c rest =>
    have hc : ¬ p c = true := by simp [hr c rfl]
    rw [List.takeWhile_cons_of_neg hc, List.dropWhile_cons_of_neg hc, List.append_nil]
    exact ⟨rfl, rfl⟩

/-- A character of one class is none of another class. -/
theorem ne_of_class {p : Char → Bool} {c d : Char} (hc : p c = true) (hd : p d = false) : c ≠ d := by
  rintro rfl
  rw [hc] at hd
  cases hd

theorem toNat_of_isIdentStart {c : Char} (hc : isIdentStart c = true) :
    65 ≤ c.toNat ∧ c.toNat ≤ 122 := by
  simp only [isIdentStart, Char.isAlpha, Char.isUpper, Char.isLower, Bool.or_eq_true,
    decide_eq_true_eq, beq_iff_eq, Bool.and_eq_true, UInt32.le_iff_toNat_le, ge_iff_le,
    Char.toNat_val] at hc
  rcases hc with (hc | hc) | rfl
  · exact ⟨hc.1, Nat.le_trans hc.2 (by decide)⟩
  · exact ⟨Nat.le_trans (by decide) hc.1, hc.2⟩
  · decide

theorem toNat_of_isDigit {c : Char} (hc : c.isDigit = true) : 48 ≤ c.toNat ∧ c.toNat ≤ 57 :=
  Char.isDigit_iff_toNat.1 hc

theorem isDigit_of_isIdentStart {c : Char} (hc : isIdentStart c = true) : c.isDigit = false := by
  rw [Bool.eq_false_iff]
  intro hd
  have h1 := toNat_of_isIdentStart hc
  have h2 := toNat_of_isDigit hd
  omega

/-- No character from the digits to the small letters is white space. -/
theorem isBlank_of_toNat {c : Char} (h : 48 ≤ c.toNat ∧ c.toNat ≤ 122) :
    Text.isBlank c = false := by
  rw [Bool.eq_false_iff]
  intro hb
  obtain ⟨range, hr, hlo, hhi⟩ := Text.CodeRanges.has_iff.1 hb
  simp only [Text.blankRanges, List.mem_cons, List.not_mem_nil, or_false] at hr
  rcases hr with rfl | rfl | rfl | rfl | rfl | rfl | rfl | rfl | rfl | rfl <;> simp only at hlo hhi <;>
    omega

theorem isIdentRest_of_isIdentStart {c : Char} (hc : isIdentStart c = true) :
    isIdentRest c = true := by
  simp only [isIdentStart, isIdentRest, Char.isAlphanum, Bool.or_eq_true] at hc ⊢
  rcases hc with hc | hc
  · exact .inl (.inl hc)
  · exact .inr hc

/-- An operator starts with a character that stands in no identifier. -/
theorem operator_cons {t : Token} (ht : t ∈ operators) :
    ∃ d ds, t.display.toList = d :: ds ∧ isIdentRest d = false := by
  simp only [operators, List.mem_cons, List.not_mem_nil, or_false] at ht
  rcases ht with rfl | rfl | rfl | rfl | rfl | rfl | rfl | rfl | rfl <;> exact ⟨_, _, rfl, rfl⟩

theorem separate_nil : Separate [] [] := ⟨by simp, .nil⟩

theorem separate_operator {t : Token} (ht : t ∈ operators) (h : Lexes rest ts) :
    Separate (t.display.toList ++ rest) (t :: ts) := by
  refine ⟨?_, lexes_operator ht h⟩
  obtain ⟨d, ds, hd, hrest⟩ := operator_cons ht
  rw [hd]
  rintro c hc
  cases hc
  exact hrest

/-- An operator between two spaces. -/
theorem separate_spaced {t : Token} (ht : t ∈ operators) (h : Lexes rest ts) :
    Separate ((" " ++ t.display ++ " ").toList ++ rest) (t :: ts) := by
  simp only [String.toList_append, List.append_assoc]
  refine ⟨?_, lexes_space (lexes_operator ht (lexes_space h))⟩
  rintro c hc
  cases hc
  rfl

theorem operator?_of_isIdentStart {c : Char} (hc : isIdentStart c = true) (cs : List Char) :
    operator? (c :: cs) = none := by
  rw [operator?, Option.map_eq_none_iff, List.find?_eq_none]
  intro t ht
  obtain ⟨d, ds, hd, hrest⟩ := operator_cons ht
  have hne : d ≠ c := (ne_of_class (isIdentRest_of_isIdentStart hc) hrest).symm
  rw [hd, List.isPrefixOf]
  simp [hne]

theorem lexes_identifier {x : String} (hx : IsIdentifier x) (h : Separate rest ts) :
    Lexes (x.toList ++ rest) (.ident x :: ts) := by
  obtain ⟨c, cs, hcs, hc, hrest⟩ := hx.exists_cons
  obtain ⟨htake, hdrop⟩ := takeWhile_append_of_head? hrest h.apart
  have hbounds := toNat_of_isIdentStart hc
  have hcut : cut? (c :: (cs ++ rest)) = some ⟨.ok (.ident x), c :: cs, rest⟩ := by
    have hquote : ¬ (c = '"' ∨ c = '\x27') := by
      rintro (rfl | rfl) <;> cases hc
    have hminus : c ≠ '-' := ne_of_class hc rfl
    have hstring : string? (c :: (cs ++ rest)) = none := by
      rw [string?, if_neg hquote]
    have hinteger : integer? (c :: (cs ++ rest)) = none := by
      simp [integer?, hminus, isDigit_of_isIdentStart hc]
    have hident : identifier? (c :: (cs ++ rest)) = some ⟨.ok (.ident x), c :: cs, rest⟩ := by
      rw [identifier?, if_pos hc]
      simp only [htake, hdrop]
      rw [← hcs, String.ofList_toList]
    rw [cut?, hstring, hinteger, operator?_of_isIdentStart hc, hident]
    rfl
  rw [hcs, List.cons_append]
  exact .token (isBlank_of_toNat (by omega)) hcut h.lexes

/-- A text that could not go on with an identifier does not start with a digit. -/
theorem Separate.isDigit (h : Separate rest ts) : ∀ c ∈ rest.head?, Char.isDigit c = false := by
  intro c hc
  have := h.apart c hc
  simp only [isIdentRest, Char.isAlphanum, Bool.or_eq_false_iff] at this
  exact this.1.2

theorem lexes_integer (i : Int64) (h : Separate rest ts) :
    Lexes ((Text.ofWord i).toList ++ rest) (.int i :: ts) := by
  obtain ⟨d, ds, hd, hdigit⟩ := Text.digits_cons i.toInt.natAbs
  have hdigits : ∀ c ∈ d :: ds, c.isDigit = true := by
    rw [← hd]
    exact fun c hc => Text.isDigit_of_mem_digits hc
  obtain ⟨htake, hdrop⟩ := takeWhile_append_of_head? hdigits h.isDigit
  rw [List.cons_append] at htake hdrop
  have hread := Text.readWord?_ofWord i
  -- the lexeme is the digits, after a minus if the word is negative
  rcases Text.toList_ofWord i with ho | ho
  · rw [ho, hd] at hread ⊢
    have hquote : ¬ (d = '"' ∨ d = '\x27') := by
      rintro (rfl | rfl) <;> cases hdigit
    have hminus : d ≠ '-' := ne_of_class hdigit rfl
    refine .token (isBlank_of_toNat ?_) ?_ h.lexes
    · have := toNat_of_isDigit hdigit
      omega
    · simp [cut?, string?, hquote, integer?, hminus, htake, hdrop, ofInteger, hread]
  · rw [ho, hd] at hread ⊢
    refine .token (by decide) ?_ h.lexes
    simp [cut?, string?, integer?, htake, hdrop, ofInteger, hread]

end ElementQuery.Token
