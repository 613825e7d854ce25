/-
White space around scanned text. A lexeme takes no white space at its ends, so white space before a
text moves its lexemes, or the place at which scanning stops, by its length, and white space after a
text changes nothing.
-/
import ElementQuery.Proofs.Text.Clean
import ElementQuery.Proofs.Token.Covering

namespace ElementQuery

/-! ## Moved places -/

/-- A lexeme at another place. -/
def Lexeme.move (f : Nat → Nat) (l : Lexeme) : Lexeme := ⟨l.token, f l.offset⟩

/-- An unbound name, met at another place. -/
def Unbound.move (f : Nat → Nat) : Unbound → Unbound
  | operand name p => operand name (f p)
  | name => name

/-- The place of an unbound name is not shown. -/
@[simp] theorem Unbound.shown_move (f : Nat → Nat) (name : Unbound) :
    (name.move f).shown = name.shown := by
  cases name <;> rfl

/-- An error at another place, if it has one. -/
def Error.move (f : Nat → Nat) : Error → Error
  | parse fault p => parse fault (f p)
  | unbound name => unbound (name.move f)
  | e => e

theorem Error.message_unbound (name : Unbound) :
    (unbound name).message = "unbound variable '" ++ name.shown ++ "'" := rfl

theorem Error.move_move (f g : Nat → Nat) (e : Error) : (e.move f).move g = e.move (g ∘ f) := by
  cases e with
  | unbound name => cases name <;> rfl
  | _ => rfl

/-! ## White space around covered texts -/

namespace Token

open Text (AllBlank)

variable {o p q n : Nat} {cs w rest rest' lexeme : List Char} {lexemes more : List Lexeme}
  {said : Except Fault Token} {fault : Fault}

theorem Covers.trans (h : Covers o cs lexemes p rest) (h' : Covers p rest more q rest') :
    Covers o cs (lexemes ++ more) q rest' := by
  induction h with
  | done => exact h'
  | blank hc _ ih => exact .blank hc (ih h')
  | lexeme hl _ ih => exact .lexeme hl (ih h')

theorem covers_blanks (hw : AllBlank w) (o : Nat) (rest : List Char) :
    Covers o (w ++ rest) [] (o + Text.byteLength w) rest := by
  induction w generalizing o with
  | nil => exact .done
  | cons c w ih =>
    have hrest := ih (fun d hd => hw d (List.mem_cons_of_mem c hd)) (o + c.utf8Size)
    rw [Nat.add_assoc] at hrest
    exact .blank (hw c List.mem_cons_self) hrest

theorem Covers.shift (h : Covers o cs lexemes p rest) (n : Nat) :
    Covers (o + n) cs (lexemes.map (Lexeme.move (· + n))) (p + n) rest := by
  induction h with
  | done => exact .done
  | blank hc _ ih =>
    rw [Nat.add_right_comm] at ih
    exact .blank hc ih
  | lexeme hl _ ih =>
    rw [Nat.add_right_comm] at ih
    exact .lexeme hl ih

/-- Of a text and white space after it, a lexeme takes none of the white space. -/
theorem Solid.prefix_of_append (h : Solid lexeme) (hw : AllBlank w) (hlexeme : lexeme <+: cs ++ w) :
    lexeme <+: cs := by
  obtain ⟨-, d, -, hlast, -, hd⟩ := h
  rcases List.prefix_or_prefix_of_prefix hlexeme (List.prefix_append cs w) with h | ⟨v, rfl⟩
  · exact h
  · cases v using List.reverseRecOn with
    | nil => rw [List.append_nil]
    | append_singleton v e =>
      -- the last character of the lexeme would be one of the white space
      rw [← List.append_assoc, List.getLast?_concat] at hlast
      cases hlast
      have hmem : d ∈ w := by
        obtain ⟨after, hafter⟩ := hlexeme
        rw [List.append_assoc, List.append_cancel_left_eq] at hafter
        rw [← hafter]
        simp
      rw [hw d hmem] at hd
      cases hd

theorem Longest.extend (h : Longest cs said lexeme rest) (hw : AllBlank w) :
    Longest (cs ++ w) said lexeme (rest ++ w) := by
  refine ⟨by rw [h.splits, List.append_assoc], h.spells, fun other said' hother hspells => ?_⟩
  exact h.longest other said' (hspells.solid.prefix_of_append hw hother) hspells

theorem Refused.extend (h : Refused cs fault) (hw : AllBlank w) : Refused (cs ++ w) fault := by
  cases h with
  | character hc hno =>
    refine .character hc fun lexeme said hlexeme hspells => ?_
    exact hno lexeme said (hspells.solid.prefix_of_append hw hlexeme) hspells
  | integer hl => exact .integer (hl.extend hw)

theorem Covers.extend (h : Covers o cs lexemes p rest) (hw : AllBlank w) :
    Covers o (cs ++ w) lexemes p (rest ++ w) := by
  induction h with
  | done => exact .done
  | blank hc _ ih => exact .blank hc ih
  | lexeme hl _ ih => exact .lexeme (hl.extend hw) ih

/-- A text has no lexemes exactly if it is white space. -/
theorem tokenize_eq_nil_iff : tokenize cs = .ok [] ↔ AllBlank cs := by
  rw [tokenize_eq_ok_iff]
  constructor
  · intro h
    have hblank {o p : Nat} {cs : List Char} {lexemes : List Lexeme} {rest : List Char}
        (h : Covers o cs lexemes p rest) (hl : lexemes = []) (hr : rest = []) : AllBlank cs := by
      induction h with
      | done => simp [hr, AllBlank]
      | blank hc _ ih => exact List.forall_mem_cons.2 ⟨hc, ih hl hr⟩
      | lexeme => cases hl
    exact hblank h rfl rfl
  · intro h
    have := covers_blanks h 0 []
    rwa [List.append_nil, Nat.zero_add] at this

/-- After a part of a text that is covered, scanning goes on as it does on what follows, with the
places moved by the length of the part. -/
theorem Covers.tokenize (h : Covers 0 (w ++ cs) lexemes (Text.byteLength w) cs) :
    tokenize (w ++ cs) =
      ((Token.tokenize cs).map fun more =>
        lexemes ++ more.map (Lexeme.move (· + Text.byteLength w))).mapError
        (Error.move (· + Text.byteLength w)) := by
  cases hcs : Token.tokenize cs with
  | ok more =>
    have hmore := (tokenize_eq_ok_iff.1 hcs).shift (Text.byteLength w)
    rw [Nat.zero_add] at hmore
    refine tokenize_eq_ok_iff.2 ?_
    rw [Text.byteLength_append, Nat.add_comm (Text.byteLength w)]
    exact h.trans hmore
  | error e =>
    obtain ⟨more, p, rest, fault, rfl, hmore, hr⟩ := tokenize_eq_error_iff.1 hcs
    have hmore := hmore.shift (Text.byteLength w)
    rw [Nat.zero_add] at hmore
    exact tokenize_eq_error_iff.2 ⟨_, _, rest, fault, rfl, h.trans hmore, hr⟩

/-- White space before a text moves its lexemes, or the place at which scanning stops. -/
theorem tokenize_blanks_append (hw : AllBlank w) (cs : List Char) :
    tokenize (w ++ cs) =
      ((tokenize cs).map (List.map (Lexeme.move (· + Text.byteLength w)))).mapError
        (Error.move (· + Text.byteLength w)) := by
  have hbefore := covers_blanks hw 0 cs
  rw [Nat.zero_add] at hbefore
  exact hbefore.tokenize

/-- White space after a text changes nothing for scanning. -/
theorem tokenize_append_blanks (hw : AllBlank w) (cs : List Char) :
    tokenize (cs ++ w) = tokenize cs := by
  cases h : tokenize cs with
  | ok lexemes =>
    have hcovers := (tokenize_eq_ok_iff.1 h).extend hw
    have hafter := covers_blanks hw (Text.byteLength cs) []
    refine tokenize_eq_ok_iff.2 ?_
    rw [Text.byteLength_append]
    have := hcovers.trans (by simpa using hafter)
    rwa [List.append_nil] at this
  | error e =>
    obtain ⟨lexemes, p, rest, fault, rfl, hcovers, hr⟩ := tokenize_eq_error_iff.1 h
    exact tokenize_eq_error_iff.2 ⟨_, _, _, fault, rfl, hcovers.extend hw, hr.extend hw⟩

/-- The place at which scanning stops is before the end of the text. -/
theorem lt_of_tokenize_error (h : tokenize cs = .error (.parse fault p)) :
    p < Text.byteLength cs := by
  obtain ⟨lexemes, p, rest, fault, he, hcovers, hr⟩ := tokenize_eq_error_iff.1 h
  cases he
  obtain ⟨before, rfl, rfl, -⟩ := hcovers.truncate
  obtain ⟨c, ds, rfl, -⟩ := hr.exists_cons
  have : 0 < Text.byteLength (c :: ds) := Text.byteLength_pos (by simp)
  rw [Text.byteLength_append]
  omega

end Token

end ElementQuery
