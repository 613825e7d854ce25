/-
Scanning loses nothing. A text is covered by white space and longest lexemes from one place to
another, with the tokens of the lexemes at the offsets where they start; every text is covered to
its end, or to a place at which it is refused, where no lexeme starts or an integer is out of range.

Main statement: scanning gives exactly the tokens that cover a text, with offsets that increase and
each stand at a character, or it stops at the first place that is refused, and the text before that
place is cut into its tokens.
-/
import ElementQuery.Proofs.Token.Spelling

namespace ElementQuery.Token

/-! ## The ends of lexemes -/

variable {cs lexeme rest : List Char} {said : Except Fault Token}

theorem toNat_of_isIdentRest {c : Char} (hc : isIdentRest c = true) :
    48 ≤ c.toNat ∧ c.toNat ≤ 122 := by
  by_cases hd : c.isDigit = true
  · have := toNat_of_isDigit hd
    omega
  · have hstart : isIdentStart c = true := by
      simp only [isIdentRest, isIdentStart, Char.isAlphanum, hd, Bool.or_false] at hc ⊢
      exact hc
    have := toNat_of_isIdentStart hstart
    omega

/-- A lexeme that neither starts nor ends with white space. -/
def Solid (cs : List Char) : Prop :=
  ∃ c d, cs.head? = some c ∧ cs.getLast? = some d ∧ Text.isBlank c = false ∧ Text.isBlank d = false

theorem solid_of_all (hne : cs ≠ []) (h : ∀ c ∈ cs, Text.isBlank c = false) : Solid cs :=
  ⟨cs.head hne, cs.getLast hne, List.head?_eq_some_head hne, List.getLast?_eq_some_getLast hne,
    h _ (List.head_mem hne), h _ (List.getLast_mem hne)⟩

theorem solid_numeral {z : Int} (h : Text.Numeral ['-'] cs z) : Solid cs := by
  have hdigits {ds : List Char} {n : Nat} (hd : Text.Digits ds n) :
      ∀ c ∈ ds, Text.isBlank c = false := by
    intro c hc
    have := toNat_of_isDigit (hd.isDigit c hc)
    exact isBlank_of_toNat (by omega)
  cases h with
  | bare hd => exact solid_of_all hd.ne_nil (hdigits hd)
  | plus hs _ => simp at hs
  | minus _ hd =>
    refine solid_of_all (by simp) fun c hc => ?_
    rcases List.mem_cons.1 hc with rfl | hc
    · decide
    · exact hdigits hd c hc

theorem Spells.solid (h : Spells lexeme said) : Solid lexeme := by
  cases h with
  | @string quote body text hq _ =>
    have hblank : Text.isBlank quote = false := by rcases hq with rfl | rfl <;> decide
    refine ⟨quote, quote, rfl, ?_, hblank, hblank⟩
    rw [← List.cons_append, List.getLast?_concat]
  | integer hn => exact solid_numeral hn
  | outOfRange hn _ => exact solid_numeral hn
  | operator ht =>
    simp only [operators, List.mem_cons, List.not_mem_nil, or_false] at ht
    rcases ht with rfl | rfl | rfl | rfl | rfl | rfl | rfl | rfl | rfl <;>
      exact ⟨_, _, rfl, rfl, by decide, by decide⟩
  | identifier hx =>
    obtain ⟨c, cs, hcs, hc, hrest⟩ := hx.exists_cons
    rw [hcs]
    refine solid_of_all (by simp) fun d hd => isBlank_of_toNat ?_
    rcases List.mem_cons.1 hd with rfl | hd
    · exact toNat_of_isIdentRest (isIdentRest_of_isIdentStart hc)
    · exact toNat_of_isIdentRest (hrest d hd)

theorem Solid.exists_cons (h : Solid cs) : ∃ c ds, cs = c :: ds ∧ Text.isBlank c = false := by
  obtain ⟨c, -, hc, -, hblank, -⟩ := h
  obtain ⟨ds, rfl⟩ := List.head?_eq_some_iff.1 hc
  exact ⟨c, ds, rfl, hblank⟩

/-! ## Covered texts -/

/-- From an offset on, a text is white space and longest lexemes up to another offset, with the
tokens of the lexemes at the offsets where they start; the rest of the text follows. -/
inductive Covers : Nat → List Char → List Lexeme → Nat → List Char → Prop
  | done {o : Nat} {cs : List Char} : Covers o cs [] o cs
  | blank {o p : Nat} {c : Char} {cs rest : List Char} {lexemes : List Lexeme}
      (hc : Text.isBlank c = true) (h : Covers (o + c.utf8Size) cs lexemes p rest) :
      Covers o (c :: cs) lexemes p rest
  | lexeme {o p : Nat} {cs lexeme after rest : List Char} {t : Token} {lexemes : List Lexeme}
      (hl : Longest cs (.ok t) lexeme after)
      (h : Covers (o + Text.byteLength lexeme) after lexemes p rest) :
      Covers o cs (⟨t, o⟩ :: lexemes) p rest

/-- A text that is refused at its start: no lexeme is there, or an integer out of range. -/
inductive Refused : List Char → Fault → Prop
  | character {c : Char} {cs : List Char} (hc : Text.isBlank c = false) (h : Unspelled (c :: cs)) :
      Refused (c :: cs) (.unexpectedCharacter c)
  | integer {cs lexeme rest : List Char} {fault : Fault}
      (h : Longest cs (.error fault) lexeme rest) : Refused cs fault

variable {o p : Nat} {lexemes : List Lexeme} {fault : Fault}

theorem Longest.exists_cons (h : Longest cs said lexeme rest) :
    ∃ c ds, cs = c :: ds ∧ Text.isBlank c = false := by
  obtain ⟨c, ds, hcs, hc⟩ := h.spells.solid.exists_cons
  exact ⟨c, ds ++ rest, by rw [h.splits, hcs, List.cons_append], hc⟩

theorem Refused.exists_cons (h : Refused cs fault) :
    ∃ c ds, cs = c :: ds ∧ Text.isBlank c = false := by
  cases h with
  | character hc _ => exact ⟨_, _, rfl, hc⟩
  | integer hl => exact hl.exists_cons

/-- Every text is covered to its end, or to a place at which it is refused. -/
theorem exists_covers (o : Nat) (cs : List Char) :
    (∃ lexemes, Covers o cs lexemes (o + Text.byteLength cs) []) ∨
      ∃ lexemes p rest fault, Covers o cs lexemes p rest ∧ Refused rest fault := by
  -- each step takes a character at least, so the induction is on the length of the text
  induction hn : cs.length using Nat.strong_induction_on generalizing o cs with
  | _ n ih =>
    cases cs with
    | nil => exact .inl ⟨[], .done⟩
    | cons c cs =>
      subst hn
      by_cases hc : Text.isBlank c = true
      · rcases ih cs.length (by simp) (o + c.utf8Size) cs rfl with
          ⟨lexemes, h⟩ | ⟨lexemes, p, rest, fault, h, hrefused⟩
        · refine .inl ⟨lexemes, ?_⟩
          rw [Text.byteLength_cons, ← Nat.add_assoc]
          exact .blank hc h
        · exact .inr ⟨lexemes, p, rest, fault, .blank hc h, hrefused⟩
      · rw [Bool.not_eq_true] at hc
        cases hcut : cut? (c :: cs) with
        | none => exact .inr ⟨[], o, _, _, .done, .character hc (cut?_eq_none_iff.1 hcut)⟩
        | some cut =>
          obtain ⟨said, lexeme, after⟩ := cut
          have hl := cut?_eq_some_iff.1 hcut
          cases said with
          | error fault => exact .inr ⟨[], o, _, _, .done, .integer hl⟩
          | ok t =>
            obtain ⟨d, ds, hlexeme, -⟩ := hl.spells.solid.exists_cons
            have hlength : after.length < (c :: cs).length := by
              rw [hl.splits, hlexeme, List.cons_append, List.length_cons, List.length_append]
              omega
            rcases ih after.length hlength (o + Text.byteLength lexeme) after rfl with
              ⟨lexemes, h⟩ | ⟨lexemes, p, rest, fault, h, hrefused⟩
            · refine .inl ⟨⟨t, o⟩ :: lexemes, ?_⟩
              rw [hl.splits, Text.byteLength_append, ← Nat.add_assoc, ← hl.splits]
              exact .lexeme hl h
            · exact .inr ⟨_, p, rest, fault, .lexeme hl h, hrefused⟩

/-! ## Scanning -/

theorem scan_nil (bound offset : Nat) : scan bound offset [] = .ok [] := by
  cases bound <;> rfl

/-- Scanning a text that starts with no white space is cutting a lexeme off it. -/
theorem scan_cons {c : Char} (hc : Text.isBlank c = false) (bound offset : Nat) (cs : List Char) :
    scan (bound + 1) offset (c :: cs) = match cut? (c :: cs) with
      | none => .error (.parse (.unexpectedCharacter c) offset)
      | some ⟨.error fault, _, _⟩ => .error (.parse fault offset)
      | some ⟨.ok t, lexeme, rest⟩ =>
        (scan bound (offset + Text.byteLength lexeme) rest).map (⟨t, offset⟩ :: ·) := by
  have hc' : ¬ Text.isBlank c = true := by simp [hc]
  rw [scan]
  simp only [List.takeWhile_cons_of_neg hc', List.dropWhile_cons_of_neg hc', Text.byteLength_nil,
    Nat.add_zero]
  cases cut? (c :: cs) with
  | none => rfl
  | some cut =>
    obtain ⟨said, lexeme, rest⟩ := cut
    cases said with
    | error fault => rfl
    | ok t =>
      dsimp only
      cases scan bound (offset + Text.byteLength lexeme) rest <;> rfl

theorem scan_refused (h : Refused cs fault) (bound : Nat) (hb : cs.length ≤ bound) (offset : Nat) :
    scan bound offset cs = .error (.parse fault offset) := by
  obtain ⟨c, ds, rfl, hc⟩ := h.exists_cons
  obtain ⟨bound, rfl⟩ : ∃ b, bound = b + 1 := ⟨bound - 1, by simp at hb; omega⟩
  rw [scan_cons hc]
  cases h with
  | character _ h => rw [cut?_eq_none_iff.2 h]
  | integer hl => rw [cut?_eq_some_iff.2 hl]

/-- Scanning passes what covers a text, and goes on as it would from the place reached. -/
theorem scan_of_covers (h : Covers o cs lexemes p rest) {result : Except Error (List Lexeme)}
    (hrest : ∀ bound, rest.length ≤ bound → scan bound p rest = result) :
    ∀ bound, cs.length ≤ bound → scan bound o cs = result.map (lexemes ++ ·) := by
  induction h with
  | done =>
    intro bound hb
    rw [hrest bound hb]
    cases result <;> rfl
  | blank hc _ ih =>
    intro bound hb
    rw [List.length_cons] at hb
    obtain ⟨bound, rfl⟩ : ∃ b, bound = b + 1 := ⟨bound - 1, by omega⟩
    rw [scan_blank hc]
    exact ih hrest (bound + 1) (by omega)
  | @lexeme o p cs lexeme after rest t lexemes hl _ ih =>
    intro bound hb
    obtain ⟨c, ds, hcs, hc⟩ := hl.exists_cons
    obtain ⟨d, es, hlexeme, -⟩ := hl.spells.solid.exists_cons
    have hlength : cs.length = es.length + 1 + after.length := by
      rw [hl.splits, hlexeme, List.length_append, List.length_cons]
    obtain ⟨bound, rfl⟩ : ∃ b, bound = b + 1 := ⟨bound - 1, by omega⟩
    have hcut := cut?_eq_some_iff.2 hl
    rw [hcs] at hcut ⊢
    rw [scan_cons hc, hcut]
    dsimp only
    rw [ih hrest bound (by omega)]
    cases result <;> rfl

/-- Scanning gives the tokens that cover a text. -/
theorem tokenize_eq_ok_iff :
    tokenize cs = .ok lexemes ↔ Covers 0 cs lexemes (Text.byteLength cs) [] := by
  have hok {lexemes : List Lexeme} (h : Covers 0 cs lexemes (Text.byteLength cs) []) :
      tokenize cs = .ok lexemes := by
    have := scan_of_covers h (fun bound _ => scan_nil bound _) cs.length (Nat.le_refl _)
    rw [tokenize, this, Except.map, List.append_nil]
  refine ⟨fun h => ?_, hok⟩
  rcases exists_covers 0 cs with ⟨lexemes', hcovers⟩ | ⟨lexemes', p, rest, fault, hcovers, hr⟩
  · rw [Nat.zero_add] at hcovers
    cases h.symm.trans (hok hcovers)
    exact hcovers
  · have := scan_of_covers hcovers (fun bound hb => scan_refused hr bound hb p) cs.length
      (Nat.le_refl _)
    cases h.symm.trans this

/-- Scanning stops at the first place at which a text is refused. -/
theorem tokenize_eq_error_iff {e : Error} :
    tokenize cs = .error e ↔
      ∃ lexemes p rest fault, e = .parse fault p ∧ Covers 0 cs lexemes p rest ∧
        Refused rest fault := by
  have herror {lexemes : List Lexeme} {p : Nat} {rest : List Char} {fault : Fault}
      (h : Covers 0 cs lexemes p rest) (hr : Refused rest fault) :
      tokenize cs = .error (.parse fault p) :=
    scan_of_covers h (fun bound hb => scan_refused hr bound hb p) cs.length (Nat.le_refl _)
  constructor
  · intro h
    rcases exists_covers 0 cs with ⟨lexemes', hcovers⟩ | ⟨lexemes', p, rest, fault, hcovers, hr⟩
    · rw [Nat.zero_add] at hcovers
      cases h.symm.trans (tokenize_eq_ok_iff.2 hcovers)
    · cases h.symm.trans (herror hcovers hr)
      exact ⟨lexemes', p, rest, fault, rfl, hcovers, hr⟩
  · rintro ⟨lexemes', p, rest, fault, rfl, hcovers, hr⟩
    exact herror hcovers hr

/-! ## Places -/

/-- The offsets of lexemes increase, between the places from and up to which they cover a text. -/
theorem Covers.offsets (h : Covers o cs lexemes p rest) :
    (lexemes.map Lexeme.offset).Pairwise (· < ·) ∧ (∀ l ∈ lexemes, o ≤ l.offset ∧ l.offset < p) ∧
      o ≤ p := by
  induction h with
  | done => simp
  | blank hc _ ih =>
    obtain ⟨hpairwise, hbounds, hle⟩ := ih
    refine ⟨hpairwise, fun l hl => ?_, by omega⟩
    have := hbounds l hl
    omega
  | @lexeme o p cs lexeme after rest t lexemes hl _ ih =>
    obtain ⟨hpairwise, hbounds, hle⟩ := ih
    obtain ⟨c, ds, rfl, -⟩ := hl.spells.solid.exists_cons
    have hpos : 0 < Text.byteLength (c :: ds) := Text.byteLength_pos (by simp)
    rw [List.map_cons, List.pairwise_cons]
    refine ⟨⟨fun q hq => ?_, hpairwise⟩, fun l hl => ?_, by omega⟩
    · obtain ⟨l, hl, rfl⟩ := List.mem_map.1 hq
      have := (hbounds l hl).1
      dsimp only
      omega
    · rcases List.mem_cons.1 hl with rfl | hl
      · exact ⟨Nat.le_refl _, by dsimp only; omega⟩
      · have := hbounds l hl
        omega

/-- A longest lexeme stays one where less follows it. -/
theorem Longest.truncate {before : List Char} (h : Longest cs said lexeme (before ++ rest)) :
    Longest (lexeme ++ before) said lexeme before := by
  refine ⟨rfl, h.spells, fun other said' hother hspells => h.longest other said' ?_ hspells⟩
  rw [h.splits, ← List.append_assoc]
  exact hother.trans (List.prefix_append _ _)

/-- The part of a text that is covered is so alone, whatever follows it. -/
theorem Covers.truncate (h : Covers o cs lexemes p rest) :
    ∃ before, cs = before ++ rest ∧ p = o + Text.byteLength before ∧
      Covers o before lexemes p [] := by
  induction h with
  | done => exact ⟨[], rfl, rfl, .done⟩
  | @blank o p c cs rest lexemes hc _ ih =>
    obtain ⟨before, rfl, rfl, hbefore⟩ := ih
    refine ⟨c :: before, rfl, ?_, .blank hc hbefore⟩
    rw [Text.byteLength_cons, Nat.add_assoc]
  | @lexeme o p cs lexeme after rest t lexemes hl _ ih =>
    obtain ⟨before, rfl, rfl, hbefore⟩ := ih
    refine ⟨lexeme ++ before, ?_, ?_, .lexeme hl.truncate hbefore⟩
    · rw [hl.splits, List.append_assoc]
    · rw [Text.byteLength_append, Nat.add_assoc]

/-- Each lexeme starts where a part of the text before it ends. -/
theorem Covers.exists_before (h : Covers o cs lexemes p rest) {l : Lexeme} (hl : l ∈ lexemes) :
    ∃ before after, cs = before ++ after ∧ l.offset = o + Text.byteLength before := by
  induction h with
  | done => cases hl
  | @blank o p c cs rest lexemes hc _ ih =>
    obtain ⟨before, after, rfl, ho⟩ := ih hl
    exact ⟨c :: before, after, rfl, by rw [ho, Text.byteLength_cons, Nat.add_assoc]⟩
  | @lexeme o p cs lexeme after rest t lexemes hlongest _ ih =>
    rcases List.mem_cons.1 hl with rfl | hl
    · exact ⟨[], cs, rfl, rfl⟩
    · obtain ⟨before, after', rfl, ho⟩ := ih hl
      refine ⟨lexeme ++ before, after', ?_, ?_⟩
      · rw [hlongest.splits, List.append_assoc]
      · rw [ho, Text.byteLength_append, Nat.add_assoc]

/-! ## Whole texts -/

/-- What stands at a place at which a text is refused. -/
theorem Refused.character_or_integer {c : Char} (h : Refused (c :: cs) fault) :
    fault = .unexpectedCharacter c ∧ Unspelled (c :: cs) ∨
      ∃ lexeme after z, Longest (c :: cs) (.error fault) lexeme after ∧
        Text.Numeral ['-'] lexeme z ∧ Text.OutOfRange z ∧
        fault = .integerOutOfRange (String.ofList lexeme) := by
  cases h with
  | character _ h => exact .inl ⟨rfl, h⟩
  | @integer _ lexeme after _ hl =>
    cases hl.spells with
    | @outOfRange _ z hn hz => exact .inr ⟨lexeme, after, z, hl, hn, hz, rfl⟩

/-- Scanning gives the tokens of the longest lexemes that cover a text, with white space between
them, and nothing else: their offsets increase, and each is the place of a character. If it fails,
then at a character that is no white space, the text before which is cut into tokens: no lexeme
starts there, and the fault names the character, or an integer that no word holds does. -/
theorem tokenize_covers (source : String) :
    (∀ lexemes, tokenize source.toList = .ok lexemes ↔
      Covers 0 source.toList lexemes source.utf8ByteSize []) ∧
    (∀ lexemes, tokenize source.toList = .ok lexemes →
      (lexemes.map Lexeme.offset).Pairwise (· < ·) ∧
        ∀ l ∈ lexemes, String.Pos.Raw.IsValid source ⟨l.offset⟩) ∧
    ∀ e, tokenize source.toList = .error e →
      ∃ fault p before c after lexemes, e = .parse fault p ∧
        source.toList = before ++ c :: after ∧ p = Text.byteLength before ∧
        String.Pos.Raw.IsValid source ⟨p⟩ ∧ Text.isBlank c = false ∧
        tokenize before = .ok lexemes ∧
        (fault = .unexpectedCharacter c ∧ Unspelled (c :: after) ∨
          ∃ lexeme rest z, Longest (c :: after) (.error fault) lexeme rest ∧
            Text.Numeral ['-'] lexeme z ∧ Text.OutOfRange z ∧
            fault = .integerOutOfRange (String.ofList lexeme)) := by
  refine ⟨fun lexemes => ?_, fun lexemes h => ?_, fun e h => ?_⟩
  · rw [tokenize_eq_ok_iff, Text.byteLength_toList]
  · have hcovers := tokenize_eq_ok_iff.1 h
    refine ⟨hcovers.offsets.1, fun l hl => ?_⟩
    obtain ⟨before, after, hsource, ho⟩ := hcovers.exists_before hl
    rw [ho, Nat.zero_add]
    exact Text.isValid_byteLength hsource
  · obtain ⟨lexemes, p, rest, fault, rfl, hcovers, hrefused⟩ := tokenize_eq_error_iff.1 h
    obtain ⟨c, after, rfl, hc⟩ := hrefused.exists_cons
    obtain ⟨before, hsource, hp, hbefore⟩ := hcovers.truncate
    rw [Nat.zero_add] at hp
    refine ⟨fault, p, before, c, after, lexemes, rfl, hsource, hp, ?_, hc, ?_,
      hrefused.character_or_integer⟩
    · rw [hp]
      exact Text.isValid_byteLength hsource
    · rw [hp] at hbefore
      exact tokenize_eq_ok_iff.2 hbefore

/-- A string with a character of two bytes, and after a gap a string in which a backslash keeps a
quote; then an ampersand alone, at which scanning stops. -/
theorem tokenize_covers_ampersand :
    Covers 0 "'é' \"\\\"\"".toList [⟨.str "é", 0⟩, ⟨.str "\"", 5⟩] 9 [] ∧
      ∃ before after lexemes, "'é' \"\\\"\" &x".toList = before ++ '&' :: after ∧
        10 = Text.byteLength before ∧ tokenize before = .ok lexemes ∧ Unspelled ('&' :: after) := by
  have hok : tokenize "'é' \"\\\"\"".toList = .ok [⟨.str "é", 0⟩, ⟨.str "\"", 5⟩] := by cbv
  have herror : tokenize "'é' \"\\\"\" &x".toList =
      .error (.parse (.unexpectedCharacter '&') 10) := by cbv
  refine ⟨((tokenize_covers _).1 _).1 hok, ?_⟩
  obtain ⟨fault, p, before, c, after, lexemes, he, hsource, hp, -, -, hbefore, h⟩ :=
    (tokenize_covers _).2.2 _ herror
  cases he
  rcases h with ⟨hfault, hunspelled⟩ | ⟨lexeme, rest, z, -, -, -, hfault⟩
  · cases hfault
    exact ⟨before, after, lexemes, hsource, hp, hbefore, hunspelled⟩
  · cases hfault

end ElementQuery.Token
