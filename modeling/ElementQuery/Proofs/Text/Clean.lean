/-
The layers around a text. Taking a run of characters off both ends of a text leaves the one part of
it between two such runs that neither starts nor ends with a character of theirs. In trimming the
runs are white space.

Main statement: a cleaned literal is what is left inside four layers, from the outside in white
space, closing parentheses, backslashes and double quotes. Nothing is left exactly of a text that is
layers alone, and a text stays as it is exactly if no layer starts at either of its ends.
-/
import Mathlib.Data.List.TakeWhile
import ElementQuery.Text.Clean

namespace ElementQuery.Text

variable {p : Char → Bool} {cs lead inside trail core : List Char}

/-! ## The ends of stripped text -/

theorem head?_stripStart : ∀ c ∈ (stripStart p cs).head?, p c = false := by
  intro c hc
  have h := List.head?_dropWhile_not p cs
  rw [stripStart, Option.mem_def] at hc
  rw [hc] at h
  exact h

theorem getLast?_stripEnd : ∀ c ∈ (stripEnd p cs).getLast?, p c = false := by
  intro c hc
  rw [stripEnd, List.getLast?_reverse] at hc
  exact head?_stripStart c hc

/-- A text without its trailing run starts as before, unless nothing is left of it. -/
theorem head?_stripEnd {c : Char} (h : c ∈ (stripEnd p cs).head?) : c ∈ cs.head? := by
  rw [← stripEnd_append_takeWhile p cs, List.head?_append, Option.mem_def.1 h]
  rfl

/-- A text that neither starts nor ends with a character in `p`. -/
def Stripped (p : Char → Bool) (cs : List Char) : Prop :=
  (∀ c ∈ cs.head?, p c = false) ∧ ∀ c ∈ cs.getLast?, p c = false

instance (p : Char → Bool) (cs : List Char) : Decidable (Stripped p cs) :=
  decidable_of_iff ((cs.head?.all fun c => !p c) ∧ cs.getLast?.all fun c => !p c) (by
    simp only [Stripped, Option.all_eq_true, Option.mem_def, Bool.not_eq_true'])

theorem stripped_strip (p : Char → Bool) (cs : List Char) : Stripped p (strip p cs) :=
  ⟨fun c hc => head?_stripStart c (head?_stripEnd hc), getLast?_stripEnd⟩

theorem strip_of_stripped (h : Stripped p cs) : strip p cs = cs := by
  have hdrop {ds : List Char} (hds : ∀ c ∈ ds.head?, p c = false) : ds.dropWhile p = ds := by
    cases ds with
    | nil => rfl
    | cons d ds => rw [List.dropWhile_cons_of_neg (by simp [hds d rfl])]
  have hlast : ∀ c ∈ cs.reverse.head?, p c = false := by
    rw [List.head?_reverse]
    exact h.2
  rw [strip, stripStart, hdrop h.1, stripEnd, hdrop hlast, List.reverse_reverse]

theorem strip_eq_self_iff : strip p cs = cs ↔ Stripped p cs :=
  ⟨fun h => h ▸ stripped_strip p cs, strip_of_stripped⟩

/-! ## One layer -/

/-- A text of characters in `p` alone. -/
def Run (p : Char → Bool) (cs : List Char) : Prop := ∀ c ∈ cs, p c = true

instance (p : Char → Bool) (cs : List Char) : Decidable (Run p cs) :=
  decidable_of_iff (cs.all p = true) List.all_eq_true

/-- Runs of characters in `p` around a text, as long as they can be. -/
structure Layer (p : Char → Bool) (lead inside trail : List Char) : Prop where
  lead : Run p lead
  trail : Run p trail
  stripped : Stripped p inside

theorem stripEnd_append (h : Run p trail) (cs : List Char) :
    stripEnd p (cs ++ trail) = stripEnd p cs := by
  have hreverse : ∀ c ∈ trail.reverse, p c = true := fun c hc => h c (List.mem_reverse.1 hc)
  rw [stripEnd, stripEnd, List.reverse_append, List.dropWhile_append_of_pos hreverse]

/-- Runs around a text are taken off with those of the text itself. -/
theorem strip_append (hlead : Run p lead) (htrail : Run p trail) (cs : List Char) :
    strip p (lead ++ cs ++ trail) = strip p cs := by
  rw [List.append_assoc, strip, stripStart, List.dropWhile_append_of_pos hlead, strip, stripStart,
    List.dropWhile_append]
  split
  · rename_i hempty
    -- the text is a run too, and nothing is left of it or of the run after it
    rw [List.isEmpty_iff.1 hempty, List.dropWhile_eq_nil_iff.2 htrail]
  · exact stripEnd_append htrail _

/-- Between two runs of characters in `p`, a text without such characters is what is left. -/
theorem strip_wrapped (hlead : Run p lead) (htrail : Run p trail)
    (hinside : ∀ c ∈ inside, p c = false) : strip p (lead ++ inside ++ trail) = inside := by
  rw [strip_append hlead htrail, strip_eq_self hinside]

theorem strip_run (h : Run p cs) : strip p cs = [] := by
  rw [strip, stripStart, List.dropWhile_eq_nil_iff.2 h]
  rfl

/-- Stripping takes off a layer. -/
theorem exists_layer (p : Char → Bool) (cs : List Char) :
    ∃ lead trail, cs = lead ++ strip p cs ++ trail ∧ Layer p lead (strip p cs) trail := by
  refine ⟨cs.takeWhile p, ((stripStart p cs).reverse.takeWhile p).reverse, ?_, ?_, ?_, ?_⟩
  · rw [List.append_assoc, strip, stripEnd_append_takeWhile, takeWhile_append_stripStart]
  · exact fun c hc => List.mem_takeWhile_imp hc
  · exact fun c hc => List.mem_takeWhile_imp (List.mem_reverse.1 hc)
  · exact stripped_strip p cs

/-- What is inside a layer is what stripping leaves. -/
theorem Layer.strip (h : Layer p lead inside trail) :
    strip p (lead ++ inside ++ trail) = inside := by
  rw [strip_append h.lead h.trail, strip_of_stripped h.stripped]

theorem strip_isInfix (p : Char → Bool) (cs : List Char) : strip p cs <:+: cs := by
  obtain ⟨lead, trail, hcs, -⟩ := exists_layer p cs
  exact ⟨lead, trail, hcs.symm⟩

/-! ## White space -/

/-- A text of white space alone. -/
def AllBlank (cs : List Char) : Prop := ∀ c ∈ cs, isBlank c = true

instance (cs : List Char) : Decidable (AllBlank cs) :=
  decidable_of_iff (cs.all isBlank = true) List.all_eq_true

/-- Trimming takes white space off both ends of a text. -/
theorem exists_append_trim (cs : List Char) :
    ∃ lead trail, AllBlank lead ∧ AllBlank trail ∧ cs = lead ++ (trim cs ++ trail) := by
  obtain ⟨lead, trail, hcs, hlayer⟩ := exists_layer isBlank cs
  rw [List.append_assoc] at hcs
  exact ⟨lead, trail, hlayer.lead, hlayer.trail, hcs⟩

theorem trim_eq_nil_iff : trim cs = [] ↔ AllBlank cs := by
  refine ⟨fun h => ?_, strip_run⟩
  obtain ⟨lead, trail, hlead, htrail, hcs⟩ := exists_append_trim cs
  rw [hcs, h, List.nil_append]
  exact List.forall_mem_append.2 ⟨hlead, htrail⟩

/-! ## Layers one after another -/

/-- A text without its layers, taken off one after another. -/
def peel (ps : List (Char → Bool)) (cs : List Char) : List Char :=
  ps.foldl (fun cs p => strip p cs) cs

theorem peel_isInfix (ps : List (Char → Bool)) (cs : List Char) : peel ps cs <:+: cs := by
  induction ps generalizing cs with
  | nil => exact List.infix_refl cs
  | cons p ps ih => exact (ih (strip p cs)).trans (strip_isInfix p cs)

/-- A text stays as it is exactly if none of the layers starts at its ends. -/
theorem peel_eq_self_iff {ps : List (Char → Bool)} :
    peel ps cs = cs ↔ ∀ p ∈ ps, Stripped p cs := by
  induction ps with
  | nil => simp [peel]
  | cons p ps ih =>
    rw [List.forall_mem_cons, ← ih, ← strip_eq_self_iff, peel, List.foldl_cons]
    constructor
    · intro h
      -- what is taken off does not come back, so the outermost layer is empty
      have hle : cs.length ≤ (strip p cs).length := by
        have := (peel_isInfix ps (strip p cs)).length_le
        rwa [peel, h] at this
      have hstrip : strip p cs = cs :=
        (strip_isInfix p cs).eq_of_length (Nat.le_antisymm (strip_isInfix p cs).length_le hle)
      rw [hstrip] at h
      exact ⟨hstrip, h⟩
    · rintro ⟨hstrip, h⟩
      rw [hstrip]
      exact h

/-! ## Cleaned literals -/

/-- The layers around a literal, from the outside in. -/
def literalLayers : List (Char → Bool) := [isBlank, (· == ')'), (· == '\\'), (· == '"')]

theorem cleanChars_eq_peel (cs : List Char) : cleanChars cs = peel literalLayers cs := by
  simp only [cleanChars, trim, peel, literalLayers, List.foldl_cons, List.foldl_nil]

theorem toList_clean (s : String) : (clean s).toList = cleanChars s.toList := String.toList_ofList

theorem clean_eq_iff {s t : String} : clean s = t ↔ cleanChars s.toList = t.toList := by
  rw [← toList_clean, String.toList_inj]

/-- A text that neither starts nor ends with a double quote. -/
def Unquoted (s : String) : Prop := '"' ∉ s.toList.head? ∧ '"' ∉ s.toList.getLast?

theorem unquoted_clean (s : String) : Unquoted (clean s) := by
  have hstripped : Stripped (· == '"') (cleanChars s.toList) := stripped_strip _ _
  rw [Unquoted, toList_clean]
  constructor
  · intro h
    simpa using hstripped.1 '"' h
  · intro h
    simpa using hstripped.2 '"' h

/-- A cleaned literal is what is inside its four layers. -/
theorem cleanChars_eq_iff :
    cleanChars cs = core ↔ ∃ w₁ p₁ b₁ d₁ d₂ b₂ p₂ w₂,
      cs = w₁ ++ p₁ ++ b₁ ++ d₁ ++ core ++ d₂ ++ b₂ ++ p₂ ++ w₂ ∧
      Layer isBlank w₁ (p₁ ++ b₁ ++ d₁ ++ core ++ d₂ ++ b₂ ++ p₂) w₂ ∧
      Layer (· == ')') p₁ (b₁ ++ d₁ ++ core ++ d₂ ++ b₂) p₂ ∧
      Layer (· == '\\') b₁ (d₁ ++ core ++ d₂) b₂ ∧ Layer (· == '"') d₁ core d₂ := by
  constructor
  · rintro rfl
    obtain ⟨w₁, w₂, hw, hblanks⟩ := exists_layer isBlank cs
    obtain ⟨p₁, p₂, hp, hparentheses⟩ := exists_layer (· == ')') (trim cs)
    obtain ⟨b₁, b₂, hb, hbackslashes⟩ := exists_layer (· == '\\') (strip (· == ')') (trim cs))
    obtain ⟨d₁, d₂, hd, hquotes⟩ :=
      exists_layer (· == '"') (strip (· == '\\') (strip (· == ')') (trim cs)))
    rw [← cleanChars] at hd hquotes
    have hb' : strip (· == ')') (trim cs) = b₁ ++ d₁ ++ cleanChars cs ++ d₂ ++ b₂ := by
      rw [hb, hd]
      simp only [List.append_assoc]
    have hp' : trim cs = p₁ ++ b₁ ++ d₁ ++ cleanChars cs ++ d₂ ++ b₂ ++ p₂ := by
      rw [hp, hb']
      simp only [List.append_assoc]
    refine ⟨w₁, p₁, b₁, d₁, d₂, b₂, p₂, w₂, ?_, hp' ▸ hblanks, hb' ▸ hparentheses,
      hd ▸ hbackslashes, hquotes⟩
    rw [← trim, hp'] at hw
    simpa only [List.append_assoc] using hw
  · rintro ⟨w₁, p₁, b₁, d₁, d₂, b₂, p₂, w₂, rfl, hblanks, hparentheses, hbackslashes, hquotes⟩
    have hw := hblanks.strip
    have hp := hparentheses.strip
    have hb := hbackslashes.strip
    simp only [List.append_assoc] at hw hp hb ⊢
    rw [cleanChars, trim, hw, hp, hb, ← List.append_assoc, hquotes.strip]

theorem Run.avoids {d : Char} (h : Run (· == d) cs) {q : Char → Bool} (hd : q d = false) :
    ∀ c ∈ cs, q c = false := by
  intro c hc
  rw [beq_iff_eq.1 (h c hc)]
  exact hd

theorem avoids_append {q : Char → Bool} (hlead : ∀ c ∈ lead, q c = false)
    (hinside : ∀ c ∈ inside, q c = false) (htrail : ∀ c ∈ trail, q c = false) :
    ∀ c ∈ lead ++ inside ++ trail, q c = false :=
  List.forall_mem_append.2 ⟨List.forall_mem_append.2 ⟨hlead, hinside⟩, htrail⟩

/-- Nothing is left of a literal exactly if it is layers alone. -/
theorem cleanChars_eq_nil_iff :
    cleanChars cs = [] ↔ ∃ w₁ p₁ b₁ d b₂ p₂ w₂, cs = w₁ ++ p₁ ++ b₁ ++ d ++ b₂ ++ p₂ ++ w₂ ∧
      Run isBlank w₁ ∧ Run isBlank w₂ ∧ Run (· == ')') p₁ ∧ Run (· == ')') p₂ ∧
      Run (· == '\\') b₁ ∧ Run (· == '\\') b₂ ∧ Run (· == '"') d := by
  constructor
  · intro h
    obtain ⟨w₁, p₁, b₁, d₁, d₂, b₂, p₂, w₂, rfl, hblanks, hparentheses, hbackslashes, hquotes⟩ :=
      cleanChars_eq_iff.1 h
    refine ⟨w₁, p₁, b₁, d₁ ++ d₂, b₂, p₂, w₂, by simp, hblanks.lead, hblanks.trail,
      hparentheses.lead, hparentheses.trail, hbackslashes.lead, hbackslashes.trail, ?_⟩
    exact List.forall_mem_append.2 ⟨hquotes.lead, hquotes.trail⟩
  · rintro ⟨w₁, p₁, b₁, d, b₂, p₂, w₂, rfl, hw₁, hw₂, hp₁, hp₂, hb₁, hb₂, hd⟩
    -- a layer has no character of those outside of it, so each comes off as it stands
    have hbackslashes := strip_wrapped hb₁ hb₂ (hd.avoids rfl)
    have hparentheses := strip_wrapped hp₁ hp₂
      (avoids_append (hb₁.avoids rfl) (hd.avoids rfl) (hb₂.avoids rfl))
    have hblanks := strip_wrapped hw₁ hw₂ (avoids_append (hp₁.avoids (by decide))
      (avoids_append (hb₁.avoids (by decide)) (hd.avoids (by decide)) (hb₂.avoids (by decide)))
      (hp₂.avoids (by decide)))
    simp only [List.append_assoc] at hblanks hparentheses hbackslashes ⊢
    rw [cleanChars, trim, hblanks, hparentheses, hbackslashes, strip_run hd]

theorem clean_eq_self_iff {s : String} :
    clean s = s ↔ ∀ c, c ∈ s.toList.head? ∨ c ∈ s.toList.getLast? →
      isBlank c = false ∧ c ≠ ')' ∧ c ≠ '\\' ∧ c ≠ '"' := by
  rw [clean_eq_iff, cleanChars_eq_peel, peel_eq_self_iff]
  constructor
  · intro h c hc
    have hc' : ∀ p ∈ literalLayers, p c = false :=
      fun p hp => hc.elim ((h p hp).1 c) ((h p hp).2 c)
    simpa [literalLayers] using hc'
  · intro h p hp
    have hends {c : Char} (hc : c ∈ s.toList.head? ∨ c ∈ s.toList.getLast?) : p c = false := by
      obtain ⟨hblank, hparenthesis, hbackslash, hquote⟩ := h c hc
      simp only [literalLayers, List.mem_cons, List.not_mem_nil, or_false] at hp
      rcases hp with rfl | rfl | rfl | rfl
      · exact hblank
      · exact beq_eq_false_iff_ne.2 hparenthesis
      · exact beq_eq_false_iff_ne.2 hbackslash
      · exact beq_eq_false_iff_ne.2 hquote
    exact ⟨fun c hc => hends (.inl hc), fun c hc => hends (.inr hc)⟩

/-- A cleaned text is the one part of a text that stands inside layers of white space, closing
parentheses, backslashes and double quotes, each as long as it can be once those outside of it are
off. No double quote is at its ends. Nothing is left of a text exactly if it is layers alone, long or
not, and a text stays as it is exactly if it is empty or no character of a layer is at its ends. -/
theorem clean_layers (s : String) :
    (clean s).toList <:+: s.toList ∧
    (∀ t : String, clean s = t ↔ ∃ w₁ p₁ b₁ d₁ d₂ b₂ p₂ w₂,
      s.toList = w₁ ++ p₁ ++ b₁ ++ d₁ ++ t.toList ++ d₂ ++ b₂ ++ p₂ ++ w₂ ∧
      Layer isBlank w₁ (p₁ ++ b₁ ++ d₁ ++ t.toList ++ d₂ ++ b₂ ++ p₂) w₂ ∧
      Layer (· == ')') p₁ (b₁ ++ d₁ ++ t.toList ++ d₂ ++ b₂) p₂ ∧
      Layer (· == '\\') b₁ (d₁ ++ t.toList ++ d₂) b₂ ∧ Layer (· == '"') d₁ t.toList d₂) ∧
    Unquoted (clean s) ∧
    (clean s = "" ↔ ∃ w₁ p₁ b₁ d b₂ p₂ w₂, s.toList = w₁ ++ p₁ ++ b₁ ++ d ++ b₂ ++ p₂ ++ w₂ ∧
      Run isBlank w₁ ∧ Run isBlank w₂ ∧ Run (· == ')') p₁ ∧ Run (· == ')') p₂ ∧
      Run (· == '\\') b₁ ∧ Run (· == '\\') b₂ ∧ Run (· == '"') d) ∧
    (clean s = s ↔ ∀ c, c ∈ s.toList.head? ∨ c ∈ s.toList.getLast? →
      isBlank c = false ∧ c ≠ ')' ∧ c ≠ '\\' ∧ c ≠ '"') := by
  refine ⟨?_, fun t => ?_, unquoted_clean s, ?_, clean_eq_self_iff⟩
  · rw [toList_clean, cleanChars_eq_peel]
    exact peel_isInfix literalLayers s.toList
  · rw [clean_eq_iff, cleanChars_eq_iff]
  · rw [clean_eq_iff]
    exact cleanChars_eq_nil_iff

/-- The quotes come off last, and the parentheses and backslash inside them stay; they come off when
the text is cleaned once more, and nothing is left of one backslash between blanks. -/
theorem clean_layers_exposed :
    clean " \"))a\\\" " = "))a\\" ∧ clean "))a\\" ≠ "))a\\" ∧ clean " \\ " = "" := by
  refine ⟨((clean_layers _).2.1 _).2 ?_, fun h => ?_, (clean_layers _).2.2.2.1.2 ?_⟩
  · exact ⟨[' '], [], [], ['"'], ['"'], [], [], [' '], rfl, ⟨by decide, by decide, by decide⟩,
      ⟨by decide, by decide, by decide⟩, ⟨by decide, by decide, by decide⟩,
      ⟨by decide, by decide, by decide⟩⟩
  · exact ((clean_layers _).2.2.2.2.1 h ')' (.inl rfl)).2.1 rfl
  · exact ⟨[' '], [], ['\\'], [], [], [], [' '], rfl, by decide, by decide, by decide, by decide,
      by decide, by decide, by decide⟩

end ElementQuery.Text
