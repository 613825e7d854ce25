/-
The places of parse errors. An error stands at a lexeme, at the end of the text or where scanning
stopped, and an empty predicate at the start; so it points at a character of the text or at its end.

White space around a text changes nothing but places. Before a text it moves every place by its
length, after a text it moves the end; only the error of an empty predicate stays where it is. The
command takes white space off a predicate before it is parsed, which therefore changes no verdict.
-/
import ElementQuery.Command.Run
import ElementQuery.Proofs.Parser.Runs
import ElementQuery.Proofs.Token.Blanks

namespace ElementQuery

/-! ## Moved lexemes -/

namespace Parser

open Text (AllBlank)

/-- A parsed predicate, or the error at another place. -/
def Parsed.move (f : Nat → Nat) (parsed : Parsed) : Parsed :=
  { parsed with result := parsed.result.mapError (Error.move f) }

@[simp] theorem Parsed.move_result (f : Nat → Nat) (parsed : Parsed) :
    (parsed.move f).result = parsed.result.mapError (Error.move f) := rfl

theorem Parsed.Moved.eq_move {f : Nat → Nat} {parsed parsed' : Parsed}
    (h : parsed.Moved (fun o o' => o' = f o) parsed') : parsed' = parsed.move f := by
  cases h with
  | ok e calls => rfl
  | error calls he =>
    cases he with
    | parse fault h => rw [h]; rfl
    | operand name h => rw [h]; rfl
    | function name => rfl
    | attributeName name => rfl

/-- Lexemes at moved places, up to a moved end, are parsed alike, with the error moved as well. -/
theorem parseLexemes_move (b : Bindings) (f : Nat → Nat) (finish : Nat) {lexemes : List Lexeme}
    (hne : lexemes ≠ []) :
    parseLexemes b (f finish) (lexemes.map (Lexeme.move f)) =
      (parseLexemes b finish lexemes).move f := by
  refine Parsed.Moved.eq_move (parseLexemes_moved ?_ (.refl b _ _) hne _ _ rfl)
  exact List.forall₂_map_right_iff.2 (List.forall₂_same.2 fun _ _ => ⟨rfl, rfl⟩)

/-- A fault of the parser stands at a lexeme or at the end of the text. -/
theorem place_of_parseLexemes {b : Bindings} {finish : Nat} {lexemes : List Lexeme}
    (hne : lexemes ≠ []) {fault : Fault} {p : Nat}
    (h : (parseLexemes b finish lexemes).result = .error (.parse fault p)) :
    p ∈ lexemes.map Lexeme.offset ∨ p = finish := by
  -- a run beside itself, at places that are all of lexemes or the end
  have hmoved := parseLexemes_moved (P := fun o _ => o ∈ lexemes.map Lexeme.offset ∨ o = finish)
    (List.forall₂_same.2 fun l hl => ⟨rfl, .inl (List.mem_map_of_mem hl)⟩)
    (.refl b _ _) hne finish finish (.inr rfl)
  generalize parseLexemes b finish lexemes = parsed at h hmoved
  cases hmoved with
  | ok e calls => cases h
  | error calls he =>
    cases h
    cases he with
    | parse _ hp => exact hp

/-! ## White space around parsed texts -/

variable {b : Bindings} {cs w : List Char}

theorem parseChars_blank (h : AllBlank cs) :
    parseChars b cs = ⟨.error (.parse .emptyPredicate 0), []⟩ := by
  rw [parseChars, Token.tokenize_eq_nil_iff.2 h]
  rfl

/-- White space before a text moves every place. -/
theorem parseChars_blanks_append (hw : AllBlank w) (hcs : ¬ AllBlank cs) :
    parseChars b (w ++ cs) = (parseChars b cs).move (· + Text.byteLength w) := by
  unfold parseChars
  rw [Token.tokenize_blanks_append hw, Text.byteLength_append, Nat.add_comm]
  cases h : Token.tokenize cs with
  | ok lexemes =>
    have hne : lexemes ≠ [] := by
      rintro rfl
      exact hcs (Token.tokenize_eq_nil_iff.1 h)
    exact parseLexemes_move b (· + Text.byteLength w) (Text.byteLength cs) hne
  | error e => rfl

/-- The end of a text, moved over what stands after it; other places stay. -/
def moveEnd (finish n p : Nat) : Nat := if p = finish then finish + n else p

theorem moveEnd_of_lt {finish n p : Nat} (h : p < finish) : moveEnd finish n p = p :=
  if_neg (Nat.ne_of_lt h)

/-- White space after a text moves its end alone. -/
theorem parseChars_append_blanks (hw : AllBlank w) (hcs : ¬ AllBlank cs) :
    parseChars b (cs ++ w) =
      (parseChars b cs).move (moveEnd (Text.byteLength cs) (Text.byteLength w)) := by
  unfold parseChars
  rw [Token.tokenize_append_blanks hw, Text.byteLength_append]
  cases h : Token.tokenize cs with
  | ok lexemes =>
    have hne : lexemes ≠ [] := by
      rintro rfl
      exact hcs (Token.tokenize_eq_nil_iff.1 h)
    have hbefore := (Token.tokenize_eq_ok_iff.1 h).offsets.2.1
    have hstay : lexemes.map (Lexeme.move (moveEnd (Text.byteLength cs) (Text.byteLength w))) =
        lexemes := by
      refine (List.map_congr_left fun l hl => ?_).trans (List.map_id lexemes)
      rw [Lexeme.move, moveEnd_of_lt (hbefore l hl).2]
      rfl
    have hmove := parseLexemes_move b (moveEnd (Text.byteLength cs) (Text.byteLength w))
      (Text.byteLength cs) hne
    rwa [hstay, moveEnd, if_pos rfl] at hmove
  | error e =>
    obtain ⟨-, p, -, fault, rfl, -⟩ := Token.tokenize_eq_error_iff.1 h
    have hstay (n : Nat) : moveEnd (Text.byteLength cs) n p = p :=
      moveEnd_of_lt (Token.lt_of_tokenize_error h)
    simp only [Parsed.move, Except.mapError, Error.move, hstay]

theorem Parsed.move_move (f g : Nat → Nat) (parsed : Parsed) :
    (parsed.move f).move g = parsed.move (g ∘ f) := by
  obtain ⟨result, calls⟩ := parsed
  cases result with
  | ok e => rfl
  | error e => simp only [Parsed.move, Except.mapError, Error.move_move]

/-- White space at the ends of a text changes nothing but places. -/
theorem exists_move_trim (b : Bindings) (cs : List Char) :
    ∃ f, parseChars b cs = (parseChars b (Text.trim cs)).move f := by
  obtain ⟨lead, trail, hlead, htrail, hcs⟩ := Text.exists_append_trim cs
  generalize Text.trim cs = core at hcs
  subst hcs
  by_cases hcore : AllBlank core
  · have hall : AllBlank (lead ++ (core ++ trail)) :=
      List.forall_mem_append.2 ⟨hlead, List.forall_mem_append.2 ⟨hcore, htrail⟩⟩
    refine ⟨id, ?_⟩
    rw [parseChars_blank hall, parseChars_blank hcore]
    rfl
  · have hrest : ¬ AllBlank (core ++ trail) := fun h => hcore (List.forall_mem_append.1 h).1
    rw [parseChars_blanks_append hlead hrest, parseChars_append_blanks htrail hcore,
      Parsed.move_move]
    exact ⟨_, rfl⟩

/-! ## Places of errors -/

/-- A parse error stands at the start of an empty predicate, where scanning stopped, at a lexeme or
at the end. -/
theorem place_of_parseChars {fault : Fault} {p : Nat}
    (h : (parseChars b cs).result = .error (.parse fault p)) :
    fault = .emptyPredicate ∧ p = 0 ∧ AllBlank cs ∨
      Token.tokenize cs = .error (.parse fault p) ∨
      ∃ lexemes, Token.tokenize cs = .ok lexemes ∧
        (p ∈ lexemes.map Lexeme.offset ∨ p = Text.byteLength cs) := by
  unfold parseChars at h
  cases htokens : Token.tokenize cs with
  | error e =>
    rw [htokens] at h
    cases h
    exact .inr (.inl rfl)
  | ok lexemes =>
    rw [htokens] at h
    by_cases hne : lexemes = []
    · subst hne
      cases h
      exact .inl ⟨rfl, rfl, Token.tokenize_eq_nil_iff.1 htokens⟩
    · exact .inr (.inr ⟨lexemes, rfl, place_of_parseLexemes hne h⟩)

/-- The place of a parse error is where a leading part of the text ends. -/
theorem exists_before_of_parseChars {fault : Fault} {p : Nat}
    (h : (parseChars b cs).result = .error (.parse fault p)) :
    ∃ before after, cs = before ++ after ∧ p = Text.byteLength before := by
  rcases place_of_parseChars h with ⟨-, rfl, -⟩ | htokens | ⟨lexemes, htokens, hp | rfl⟩
  · exact ⟨[], cs, rfl, rfl⟩
  · obtain ⟨lexemes, p, rest, fault, he, hcovers, -⟩ := Token.tokenize_eq_error_iff.1 htokens
    cases he
    obtain ⟨before, hcs, hp, -⟩ := hcovers.truncate
    exact ⟨before, rest, hcs, by rw [hp, Nat.zero_add]⟩
  · obtain ⟨l, hl, rfl⟩ := List.mem_map.1 hp
    obtain ⟨before, after, hcs, ho⟩ := (Token.tokenize_eq_ok_iff.1 htokens).exists_before hl
    exact ⟨before, after, hcs, by rw [ho, Nat.zero_add]⟩
  · exact ⟨cs, [], by rw [List.append_nil], rfl⟩

end Parser

/-! ## Whole texts -/

theorem Command.parseSource_result (b : Bindings) (source : String) :
    (parseSource b source).result =
      (Parser.parseChars b (Text.trim source.toList)).result.mapError .invalidPredicate := rfl

namespace Expr

open Text (AllBlank)

/-- A parse error points at a character of the text or at its end: at the start if the text is
blank, else where scanning stopped, at a lexeme or at the end. White space before a text that is
not blank moves the places of its errors by the length of the white space, white space after it
moves the end alone; a blank text stays an empty predicate. The place of an unbound name is in no
message. So the command, which takes white space off, accepts the same predicates with the same
trees, and refuses others with the same errors but for the place. -/
theorem parse_error_places (source : String) (b : Bindings) :
    (∀ fault p, (parse source b).result = .error (.parse fault p) →
      p ≤ source.utf8ByteSize ∧ String.Pos.Raw.IsValid source ⟨p⟩ ∧
        (fault = .emptyPredicate ∧ p = 0 ∧ AllBlank source.toList ∨
          Token.tokenize source.toList = .error (.parse fault p) ∨
          ∃ lexemes, Token.tokenize source.toList = .ok lexemes ∧
            (p ∈ lexemes.map Lexeme.offset ∨ p = source.utf8ByteSize))) ∧
    (∀ w : String, AllBlank w.toList →
      (AllBlank source.toList →
        parse (w ++ source) b = ⟨.error (.parse .emptyPredicate 0), []⟩ ∧
          parse (source ++ w) b = ⟨.error (.parse .emptyPredicate 0), []⟩) ∧
      (¬ AllBlank source.toList →
        parse (w ++ source) b = (parse source b).move (· + w.utf8ByteSize) ∧
          parse (source ++ w) b =
            (parse source b).move (Parser.moveEnd source.utf8ByteSize w.utf8ByteSize))) ∧
    (∀ f name, ((Error.unbound name).move f).message = (Error.unbound name).message) ∧
    (∀ e, (Command.parseSource b source).result = .ok e ↔ (parse source b).result = .ok e) ∧
    ∃ f, ∀ cause, (Command.parseSource b source).result = .error (.invalidPredicate cause) →
      (parse source b).result = .error (cause.move f) := by
  refine ⟨fun fault p h => ?_, fun w hw => ⟨fun hblank => ?_, fun hblank => ?_⟩,
    fun f name => ?_, ?_⟩
  · obtain ⟨before, after, hsource, hp⟩ := Parser.exists_before_of_parseChars h
    have hlength : source.utf8ByteSize = p + Text.byteLength after := by
      rw [← Text.byteLength_toList, hsource, Text.byteLength_append, hp]
    refine ⟨by omega, ?_, ?_⟩
    · rw [hp]
      exact Text.isValid_byteLength hsource
    · rw [← Text.byteLength_toList]
      exact Parser.place_of_parseChars h
  · unfold parse
    rw [String.toList_append, String.toList_append,
      Parser.parseChars_blank (List.forall_mem_append.2 ⟨hw, hblank⟩),
      Parser.parseChars_blank (List.forall_mem_append.2 ⟨hblank, hw⟩)]
    exact ⟨rfl, rfl⟩
  · unfold parse
    rw [String.toList_append, String.toList_append, Parser.parseChars_blanks_append hw hblank,
      Parser.parseChars_append_blanks hw hblank, Text.byteLength_toList, Text.byteLength_toList]
    exact ⟨rfl, rfl⟩
  · rw [Error.move, Error.message_unbound, Error.message_unbound, Unbound.shown_move]
  · obtain ⟨f, hf⟩ := Parser.exists_move_trim b source.toList
    rw [parse, hf, Parser.Parsed.move_result, Command.parseSource_result]
    cases (Parser.parseChars b (Text.trim source.toList)).result with
    | ok e => exact ⟨fun e' => by simp [Except.mapError], f, fun cause h => by cases h⟩
    | error e =>
      refine ⟨fun e' => by simp [Except.mapError], f, fun cause h => ?_⟩
      cases h
      rfl

/-- An operand is missing at the end, after a character of two bytes; white space of two bytes
before or after it moves the end. -/
theorem parse_error_places_end :
    AllBlank "\u00a0".toList ∧ ¬ AllBlank "'é' ==".toList ∧
      String.Pos.Raw.IsValid "'é' ==" ⟨7⟩ ∧
      (parse ("\u00a0" ++ "'é' ==") .empty).result = .error (.parse .unexpectedEnd 9) ∧
      (parse ("'é' ==" ++ "\u00a0") .empty).result = .error (.parse .unexpectedEnd 9) ∧
      (∃ p, (parse "'é' ==" .empty).result = .error (.parse .unexpectedEnd p)) ∧
      (parse ("\u00a0" ++ "\t") .empty).result = .error (.parse .emptyPredicate 0) := by
  have herror : (parse "'é' ==" .empty).result = .error (.parse .unexpectedEnd 7) := by cbv
  have htrimmed : (Command.parseSource .empty "'é' ==").result =
      .error (.invalidPredicate (.parse .unexpectedEnd 7)) := by cbv
  have hblank : AllBlank "\u00a0".toList := by decide
  have hsource : ¬ AllBlank "'é' ==".toList := by decide
  obtain ⟨hplaces, hmoves, -, -, f, hcommand⟩ := parse_error_places "'é' ==" .empty
  obtain ⟨hbefore, hafter⟩ := (hmoves "\u00a0" hblank).2 hsource
  refine ⟨hblank, hsource, (hplaces _ _ herror).2.1, ?_, ?_, ⟨f 7, hcommand _ htrimmed⟩, ?_⟩
  · rw [hbefore, Parser.Parsed.move_result, herror]
    rfl
  · rw [hafter, Parser.Parsed.move_result, herror]
    rfl
  · rw [(((parse_error_places "\t" .empty).2.1 "\u00a0" hblank).1 (by decide)).1]

end Expr

end ElementQuery
