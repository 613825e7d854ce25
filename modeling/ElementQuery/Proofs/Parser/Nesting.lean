/-
How deep the trees of predicate texts are. A level of nesting that a text opens adds at most four
steps to a way from the root of its tree to a leaf: one to the right of a disjunction, one to the
right of a conjunction, one into a comparison or a negation, and one into the argument of a
containment test or of a conversion. Steps to the left of a connective are free, since chains are
walked and displayed along them without nesting.

Fields are read one after another without opening a level. So the steps that are not into the
object of a field stay within four times the deepest nesting, and a row of fields is as deep as it
is long.
-/
import ElementQuery.Proofs.Expr.RoundTrip

namespace ElementQuery

/-! ## Ways from the root to a leaf -/

namespace Expr

/-- The longest way from the root of a tree to a leaf, where a step to the left of a connective is
free and a step into the object of a field counts as given. -/
def nesting (field : Nat) : Expr → Nat
  | and l r | or l r => max (l.nesting field) (r.nesting field + 1)
  | eq l r => max (l.nesting field) (r.nesting field) + 1
  | not e | contains _ e | convert _ e => e.nesting field + 1
  | member e _ => e.nesting field + field
  | literal _ | path _ | captured _ _ | call _ _ => 0

/-- The most fields that are read on the way from the root of a tree to a leaf. -/
def fieldsRead : Expr → Nat
  | and l r | or l r | eq l r => max l.fieldsRead r.fieldsRead
  | not e | contains _ e | convert _ e => e.fieldsRead
  | member e _ => e.fieldsRead + 1
  | literal _ | path _ | captured _ _ | call _ _ => 0

/-- Only the fields read on the way tell the two counts apart. -/
theorem nesting_one_le (e : Expr) : e.nesting 1 ≤ e.nesting 0 + e.fieldsRead := by
  induction e with
  | and l r ihl ihr | or l r ihl ihr | eq l r ihl ihr =>
    simp only [nesting, fieldsRead]
    omega
  | not e ih | contains p e ih | member e f ih | convert k e ih =>
    simp only [nesting, fieldsRead]
    omega
  | literal _ | path _ | captured _ _ | call _ _ => exact Nat.zero_le _

theorem nesting_foldl_member (field : Nat) (names : List String) (object : Expr) :
    (names.foldl member object).nesting field = object.nesting field + names.length * field := by
  induction names generalizing object with
  | nil => simp
  | cons name names ih =>
    rw [List.foldl_cons, ih, nesting, List.length_cons, Nat.succ_mul]
    omega

end Expr

namespace Parser

open Grammar (Connective)

/-! ## Room above a tree -/

/-- The trees that a parser returns leave room for some further steps above them within a
bound. -/
def Fits (p : Parser Expr) (room bound : Nat) : Prop :=
  Sound p fun _ e => e.nesting 0 + room ≤ bound

variable {ctx : Context} {nested : Parser Expr} {n : Nat}

theorem fits_fields {object : Expr} (h : object.nesting 0 ≤ n) : Fits (fields ctx object) 0 n := by
  refine sound_fields.imp fun ts e he => ?_
  obtain ⟨names, -, rfl⟩ := he
  rw [Expr.nesting_foldl_member]
  omega

/-! ## The vocabulary -/

section Vocabulary

variable (hn : Fits nested 1 n)

include hn

theorem fits_containsForm (subject : Path) : Fits (containsForm ctx nested subject) 0 n := by
  refine (sound_containsForm hn).imp fun ts e he => ?_
  obtain ⟨us, a, -, ha, rfl⟩ := he
  exact ha

theorem fits_attributeForm (owner : Owner) : Fits (attributeForm ctx nested owner) 0 n := by
  unfold attributeForm
  refine sound_expect.after fun _ => ?_
  refine sound_attributeName.bind fun ts name _ => ?_
  refine sound_expect.after fun _ => ?_
  refine sound_expect.after fun _ => ?_
  refine sound_identifier.after fun field => ?_
  split
  · exact .pure (Nat.zero_le n)
  · exact fits_containsForm hn _
  · exact .fail

theorem fits_textForm (owner : Owner) : Fits (textForm ctx nested owner) 0 n := by
  rintro ⟨rest, calls⟩ e s' hs
  unfold textForm at hs
  split at hs
  · rename_i o o' rest' hr
    obtain ⟨used, hu, he⟩ := fits_containsForm hn _ _ _ _ hs
    refine ⟨⟨.dot, o⟩ :: ⟨.ident "Contains", o'⟩ :: used, ?_, he⟩
    simp only at hr hu
    rw [hr, hu]
    rfl
  · cases hs
    exact ⟨[], rfl, Nat.zero_le n⟩

theorem fits_vocabulary (head : Head) : Fits (vocabulary ctx nested head) 0 n := by
  unfold vocabulary
  split
  · exact .pure (Nat.zero_le n)
  · exact .pure (Nat.zero_le n)
  · exact fits_textForm hn .target
  · exact fits_attributeForm hn .target
  · refine sound_expect.after fun _ => ?_
    refine sound_identifier.after fun field => ?_
    split
    · exact fits_attributeForm hn .parent
    · exact fits_textForm hn .parent
    · split
      · exact .pure (Nat.zero_le n)
      · exact .fail

/-! ## Operands -/

theorem fits_receiver (start : Nat) : Fits (receiver ctx nested start) 0 n := by
  unfold receiver
  refine sound_expect.after fun _ => ?_
  refine sound_identifier.after fun word => ?_
  split
  · exact fits_vocabulary hn _
  · exact .failAt

theorem fits_application (name : String) : Fits (application ctx nested name) 0 n := by
  unfold application
  split
  · refine hn.bind fun ts e he => ?_
    exact sound_expect.after fun _ => .pure he
  · refine sound_expect.after fun _ => ?_
    split
    · -- whatever the function returns, a call is a leaf
      have hcall {f : Function} : Sound (invoke name f) fun _ _ => True := by
        intro s v s' hs
        cases hs
        exact ⟨[], rfl, trivial⟩
      exact hcall.bind fun ts v _ => fits_fields (Nat.zero_le n)
    · exact .throw

theorem fits_named (name : String) (start : Nat) : Fits (named ctx nested name start) 0 n := by
  unfold named
  split
  · exact fits_receiver hn start
  split
  · exact .pure (Nat.zero_le n)
  split
  · exact .pure (Nat.zero_le n)
  split
  · exact fits_vocabulary hn _
  · refine sound_eat.after fun a => ?_
    cases a with
    | true => exact fits_application hn name
    | false =>
      show Fits (captured ctx name start) 0 n
      unfold captured
      split
      · exact fits_fields (Nat.zero_le n)
      · exact .throw

theorem fits_operand : Fits (operand ctx nested) 0 n := by
  unfold operand
  refine sound_offset.after fun start => ?_
  refine sound_advance.after fun token => ?_
  split
  · refine hn.bind fun ts e he => ?_
    exact sound_expect.after fun _ => .pure (Nat.le_of_succ_le he)
  · exact .pure (Nat.zero_le n)
  · exact .pure (Nat.zero_le n)
  · exact fits_named hn _ start
  · exact .failAt
  · exact .failAt

theorem fits_comparison : Fits (comparison ctx nested) 0 (n + 1) := by
  unfold comparison
  refine (fits_operand hn).bind fun ts l hl => ?_
  refine sound_eat.after fun a => ?_
  cases a with
  | true =>
    refine (fits_operand hn).bind fun us r hr => .pure ?_
    simp only [Expr.nesting]
    omega
  | false => exact .pure (by omega)

end Vocabulary

/-! ## Connectives -/

section Chains

variable {item : Parser Expr} {room : Nat} (c : Connective) (hi : Fits item (room + 1) n)

include hi

theorem fits_links (bound : Nat) (left : Expr) (hl : left.nesting 0 + room ≤ n) :
    Fits (links c.token c.join item bound left) room n := by
  induction bound generalizing left with
  | zero =>
    intro s e s' hs
    cases hs
    exact ⟨[], rfl, hl⟩
  | succ bound ih =>
    rintro ⟨rest, calls⟩ e s' hs
    rcases rest with _ | ⟨l, rest⟩
    · cases hs
      exact ⟨[], rfl, hl⟩
    · simp only [links] at hs
      split at hs
      · split at hs
        · rename_i right t hr
          obtain ⟨used, hu, hroom⟩ := hi _ _ _ hr
          -- the step to the left is free, the step to the right takes one of the room
          have hjoin : (c.join left right).nesting 0 + room ≤ n := by
            cases c <;> simp only [Connective.join, Expr.nesting] <;> omega
          obtain ⟨used', hu', he⟩ := ih _ hjoin _ _ _ hs
          refine ⟨l :: (used ++ used'), ?_, he⟩
          simp only at hu
          rw [hu, hu', List.cons_append, List.append_assoc]
        · cases hs
      · cases hs
        exact ⟨[], rfl, hl⟩

theorem fits_chain : Fits (chain c.token c.join item) room n := by
  unfold chain
  exact hi.bind fun ts first hf s => fits_links c hi _ first (by omega) s

end Chains

theorem fits_disjunction {unary : Parser Expr} {room : Nat} (hu : Fits unary (room + 2) n) :
    Fits (disjunction unary) room n :=
  fits_chain .or (fits_chain .and hu)

/-- A level of nesting adds at most four steps. -/
theorem fits_unary (ctx : Context) (depth : Nat) : Fits (unary ctx depth) 3 (4 * depth) := by
  induction depth with
  | zero => exact .fail
  | succ depth ih =>
    unfold unary
    refine sound_eat.after fun a => ?_
    cases a with
    | true =>
      refine ih.bind fun ts e he => .pure ?_
      simp only [Expr.nesting]
      omega
    | false =>
      refine (fits_comparison (fits_disjunction ih)).imp fun ts e he => ?_
      omega

theorem fits_whole (ctx : Context) : Fits (whole ctx) 1 (4 * maxDepth) := by
  unfold whole
  refine (fits_disjunction (fits_unary ctx maxDepth)).bind fun ts e he => ?_
  refine sound_peek.after fun next => ?_
  split
  · exact .fail
  · exact .pure he

theorem nesting_of_parseLexemes {b : Bindings} {finish : Nat} {lexemes : List Lexeme} {e : Expr}
    (h : (parseLexemes b finish lexemes).result = .ok e) : e.nesting 0 < 4 * maxDepth := by
  have hne : lexemes ≠ [] := by
    rintro rfl
    cases h
  obtain ⟨s', hw⟩ := (parseLexemes_eq_ok hne rfl).1 h
  obtain ⟨used, -, he⟩ := fits_whole _ _ _ _ hw
  exact he

end Parser

/-! ## Whole texts -/

namespace Expr

/-- The tree of a text is less than four times the deepest nesting deep, whatever the length of the
text, if steps into the objects of fields are not counted. Counted in full it is less deep than
that and the longest row of fields together. -/
theorem nesting_of_parse {source : String} {b : Bindings} {e : Expr}
    (h : (parse source b).result = .ok e) :
    e.nesting 0 < 4 * Parser.maxDepth ∧ e.nesting 1 < 4 * Parser.maxDepth + e.fieldsRead := by
  have hzero : e.nesting 0 < 4 * Parser.maxDepth := by
    unfold parse Parser.parseChars at h
    split at h
    · exact Parser.nesting_of_parseLexemes h
    · cases h
  have hone := e.nesting_one_le
  exact ⟨hzero, by omega⟩

/-- A containment test on two fields inside a negation. -/
theorem nesting_of_parse_negated :
    (parse "!Text.Contains(row.cell.index)" (Bindings.empty.bind "row" .null)).result =
        .ok (not (contains (.member (.text .target))
          (member (member (captured "row" .null) "cell") "index"))) ∧
      nesting 1 (not (contains (.member (.text .target))
        (member (member (captured "row" .null) "cell") "index"))) < 4 * Parser.maxDepth + 2 := by
  have hparse : (parse "!Text.Contains(row.cell.index)" (Bindings.empty.bind "row" .null)).result =
      .ok (not (contains (.member (.text .target))
        (member (member (captured "row" .null) "cell") "index"))) := by
    cbv
  exact ⟨hparse, (nesting_of_parse hparse).2⟩

/-! ## Rows of fields -/

theorem displayPlain_foldl_member (names : List String) (object : Expr) :
    (names.foldl member object).displayPlain =
      object.displayPlain ++ String.join (names.map ("." ++ ·)) := by
  induction names generalizing object with
  | nil => simp
  | cons name names ih =>
    rw [List.foldl_cons, ih, displayPlain, List.map_cons, String.join_cons]
    simp only [String.append_assoc]

theorem printable_foldl_member {b : Bindings} {names : List String}
    (hnames : ∀ f ∈ names, Token.IsIdentifier f) {object : Expr} (h : Printable b object)
    (hown : object.IsOwn) : Printable b (names.foldl member object) := by
  induction names generalizing object with
  | nil => exact h
  | cons name names ih =>
    rw [List.forall_mem_cons] at hnames
    exact ih hnames.2 (.member hown hnames.1 h) trivial

/-- A row of fields of any length is parsed, and is nowhere too deep for the parser. -/
theorem parse_row (n : Nat) :
    (parse ("x" ++ String.join (List.replicate n ".a")) (Bindings.empty.bind "x" .null)).result =
      .ok ((List.replicate n "a").foldl member (captured "x" .null)) := by
  have hx : Printable (Bindings.empty.bind "x" .null) (captured "x" .null) := by
    refine .captured (by decide) ⟨by simp, by decide, by decide, ?_⟩ rfl
    exact Head.ofWord?_eq_none_iff.1 (by decide)
  have hnames : ∀ f ∈ List.replicate n "a", Token.IsIdentifier f := by
    intro f hf
    rw [List.eq_of_mem_replicate hf]
    decide
  have hrow := printable_foldl_member hnames hx trivial
  have hneed : ((List.replicate n "a").foldl member (captured "x" .null)).need = 1 := by
    cases n with
    | zero => rfl
    | succ n => rw [List.replicate_succ', List.foldl_append, List.foldl_cons, List.foldl_nil, need]
  have htext : ((List.replicate n "a").foldl member (captured "x" .null)).display =
      "x" ++ String.join (List.replicate n ".a") := by
    rw [display, displayIn_eq_enclose, enclose_nil, displayPlain_foldl_member, List.map_replicate]
    rfl
  rw [← htext]
  exact parse_of_printable hrow (by rw [hneed]; decide)

/-- A row of 1025 fields is deeper than four times the deepest nesting. -/
theorem nesting_of_parse_row :
    ∃ e, (parse ("x" ++ String.join (List.replicate 1025 ".a"))
        (Bindings.empty.bind "x" .null)).result = .ok e ∧
      ¬ e.nesting 1 ≤ 4 * Parser.maxDepth := by
  refine ⟨_, parse_row 1025, ?_⟩
  rw [nesting_foldl_member, List.length_replicate]
  decide

end Expr

end ElementQuery
