/-
Reading undoes writing for integers: the decimal text of a number reads back as that number, and
that of a word as that word, over the whole range of words.

`Numeral` says which texts are numbers at all, without a reader: digits after one of the signs that
are allowed, or after none. The readers accept exactly the numerals, and a word-sized one those
within the range of words.
-/
import ElementQuery.Text.Integer

namespace ElementQuery.Text

/-! ## Digits -/

theorem isDigit_of_mem_digits {n : Nat} {c : Char} (h : c ∈ Nat.toDigits 10 n) :
    c.isDigit = true :=
  Nat.isDigit_of_mem_toDigits (by decide) (by decide) h

theorem readDigits?_digits (n : Nat) : readDigits? (Nat.toDigits 10 n) = some n := by
  have hall : (Nat.toDigits 10 n).all Char.isDigit = true :=
    List.all_eq_true.2 fun c hc => isDigit_of_mem_digits hc
  simp [readDigits?, hall, Nat.toDigits_ne_nil]

/-- The digits of a number start with a digit, so with no sign. -/
theorem digits_cons (n : Nat) :
    ∃ d ds, Nat.toDigits 10 n = d :: ds ∧ d.isDigit = true := by
  cases h : Nat.toDigits 10 n with
  | nil => exact absurd h Nat.toDigits_ne_nil
  | cons d ds => exact ⟨d, ds, rfl, isDigit_of_mem_digits (h ▸ List.mem_cons_self)⟩

theorem readNat?_digits (n : Nat) : readNat? (Nat.toDigits 10 n) = some n := by
  obtain ⟨d, ds, hd, hdigit⟩ := digits_cons n
  have hplus : d ≠ '+' := by rintro rfl; cases hdigit
  rw [← readDigits?_digits n, hd]
  simp [readNat?, hplus]

theorem readInt?_digits (n : Nat) : readInt? (Nat.toDigits 10 n) = some (n : Int) := by
  obtain ⟨d, ds, hd, hdigit⟩ := digits_cons n
  have hminus : d ≠ '-' := by rintro rfl; cases hdigit
  have hnat := readNat?_digits n
  rw [hd] at hnat ⊢
  simp [readInt?, hminus, hnat]

/-! ## Words -/

/-- The text of a word: its digits, after a minus sign if it is negative. -/
theorem toList_ofWord (i : Int64) :
    (ofWord i).toList = Nat.toDigits 10 i.toInt.natAbs ∨
      (ofWord i).toList = '-' :: Nat.toDigits 10 i.toInt.natAbs := by
  show (Int.repr i.toInt).toList = _ ∨ (Int.repr i.toInt).toList = _
  cases i.toInt with
  | ofNat n => exact .inl Nat.toList_repr
  | negSucc n =>
    refine .inr ?_
    rw [Int.repr, String.toList_append, Nat.toList_repr]
    rfl

theorem readInt?_ofWord (i : Int64) : readInt? (ofWord i).toList = some i.toInt := by
  show readInt? (Int.repr i.toInt).toList = _
  cases i.toInt with
  | ofNat n =>
    rw [Int.repr, Nat.toList_repr]
    exact readInt?_digits n
  | negSucc n =>
    rw [Int.repr, String.toList_append, Nat.toList_repr]
    show (readDigits? (Nat.toDigits 10 (n + 1))).map (fun m => -(m : Int)) = _
    rw [readDigits?_digits]
    rfl

theorem readWord?_ofWord (i : Int64) : readWord? (ofWord i).toList = some i := by
  rw [readWord?, readInt?_ofWord]
  exact toWord?_toInt i

theorem toWord?_eq_some_iff {z : Int} {i : Int64} : toWord? z = some i ↔ i.toInt = z := by
  constructor
  · intro h
    unfold toWord? at h
    split at h
    · rename_i hz
      cases h
      exact Int64.toInt_ofInt_of_le hz.1 (Int.lt_of_le_sub_one hz.2)
    · cases h
  · rintro rfl
    exact toWord?_toInt i

/-- The numbers that no word holds. -/
def OutOfRange (z : Int) : Prop := z < Int64.minValue.toInt ∨ Int64.maxValue.toInt < z

theorem toWord?_eq_none_iff {z : Int} : toWord? z = none ↔ OutOfRange z := by
  unfold toWord? OutOfRange
  split
  · simp only [reduceCtorEq, false_iff]
    omega
  · simp only [true_iff]
    omega

/-! ## Numerals -/

/-- A number in decimal: at least one digit, and any number of leading zeros. -/
structure Digits (cs : List Char) (n : Nat) : Prop where
  ne_nil : cs ≠ []
  isDigit : ∀ c ∈ cs, c.isDigit = true
  value : Nat.ofDigitChars 10 cs 0 = n

/-- A positive number in decimal without a zero in front. -/
structure Canonical (cs : List Char) (n : Nat) : Prop extends Digits cs n where
  head_ne_zero : cs.head? ≠ some '0'

/-- A number in decimal after one of the signs allowed, or after none. -/
inductive Numeral (signs : List Char) : List Char → Int → Prop
  | bare {cs : List Char} {n : Nat} (h : Digits cs n) : Numeral signs cs n
  | plus {cs : List Char} {n : Nat} (hs : '+' ∈ signs) (h : Digits cs n) :
      Numeral signs ('+' :: cs) n
  | minus {cs : List Char} {n : Nat} (hs : '-' ∈ signs) (h : Digits cs n) :
      Numeral signs ('-' :: cs) (-(n : Int))

theorem readDigits?_eq_some_iff {cs : List Char} {n : Nat} :
    readDigits? cs = some n ↔ Digits cs n := by
  unfold readDigits?
  split
  · rename_i h
    simp only [reduceCtorEq, false_iff]
    rintro ⟨hne, hdigit, -⟩
    simp [hne, List.all_eq_true.2 hdigit] at h
  · rename_i h
    simp only [Bool.or_eq_true, List.isEmpty_iff, Bool.not_eq_true', not_or,
      Bool.not_eq_false, List.all_eq_true] at h
    rw [Option.some.injEq]
    exact ⟨fun hn => ⟨h.1, h.2, hn⟩, fun hd => hd.value⟩

/-- A digit is that of its value, which is less than ten. -/
theorem toDigits_value {c : Char} (h : c.isDigit = true) :
    c.toNat - '0'.toNat < 10 ∧ Nat.toDigits 10 (c.toNat - '0'.toNat) = [c] := by
  have hbounds : 48 ≤ c.toNat ∧ c.toNat ≤ 57 := Char.isDigit_iff_toNat.1 h
  have hlt : c.toNat - 48 < 10 := by omega
  refine ⟨hlt, ?_⟩
  show Nat.toDigits 10 (c.toNat - 48) = [c]
  have hchar : (c.toNat - 48).digitChar = c := by
    rw [← Char.toNat_inj, Nat.toNat_digitChar_of_lt_ten hlt]
    omega
  rw [Nat.toDigits_of_lt_base hlt, hchar]

/-- Reading digits on from a positive number puts them after its digits. -/
theorem toDigits_ofDigitChars {cs : List Char} (hcs : ∀ c ∈ cs, c.isDigit = true) {n : Nat}
    (hn : 0 < n) : Nat.toDigits 10 (Nat.ofDigitChars 10 cs n) = Nat.toDigits 10 n ++ cs := by
  induction cs generalizing n with
  | nil => rw [Nat.ofDigitChars_nil, List.append_nil]
  | cons c cs ih =>
    rw [List.forall_mem_cons] at hcs
    obtain ⟨hlt, hdigit⟩ := toDigits_value hcs.1
    rw [Nat.ofDigitChars_cons, ih hcs.2 (by omega),
      ← Nat.toDigits_append_toDigits (by decide) hn hlt, hdigit, List.append_assoc,
      List.singleton_append]

theorem head?_toDigits {n : Nat} (hn : 0 < n) : (Nat.toDigits 10 n).head? ≠ some '0' := by
  induction n using Nat.strongRecOn with
  | ind n ih =>
    rw [Nat.toDigits_eq_if (by decide)]
    split
    · rename_i hlt
      rw [List.head?_cons, ne_eq, Option.some.injEq, ← Char.toNat_inj,
        Nat.toNat_digitChar_of_lt_ten hlt]
      show ¬ 48 + n = 48
      omega
    · rename_i hle
      obtain ⟨d, ds, hd, -⟩ := digits_cons (n / 10)
      have hfront := ih (n / 10) (by omega) (by omega)
      rw [hd] at hfront ⊢
      exact hfront

/-- A positive number has one canonical text. -/
theorem canonical_iff {cs : List Char} {n : Nat} (hn : 0 < n) :
    Canonical cs n ↔ cs = Nat.toDigits 10 n := by
  constructor
  · rintro ⟨⟨hne, hdigits, rfl⟩, hzero⟩
    obtain ⟨c, cs, rfl⟩ := List.exists_cons_of_ne_nil hne
    rw [List.forall_mem_cons] at hdigits
    have hpos : 0 < c.toNat - '0'.toNat := by
      have hbounds : 48 ≤ c.toNat := (Char.isDigit_iff_toNat.1 hdigits.1).1
      have hne : c.toNat ≠ 48 := fun h => hzero (congrArg some (Char.toNat_inj.1 h))
      show 0 < c.toNat - 48
      omega
    rw [Nat.ofDigitChars_cons, Nat.mul_zero, Nat.zero_add, toDigits_ofDigitChars hdigits.2 hpos,
      (toDigits_value hdigits.1).2, List.singleton_append]
  · rintro rfl
    exact ⟨⟨Nat.toDigits_ne_nil, fun c hc => isDigit_of_mem_digits hc,
      Nat.ofDigitChars_ten_toDigits⟩, head?_toDigits hn⟩

/-- Digits do not start with a sign. -/
theorem Digits.head_ne {c : Char} {cs : List Char} {n : Nat} (h : Digits (c :: cs) n) (sign : Char)
    (hs : sign.isDigit = false) : c ≠ sign := by
  rintro rfl
  rw [h.isDigit c List.mem_cons_self] at hs
  cases hs

theorem readNat?_eq_some_iff {cs : List Char} {n : Nat} :
    readNat? cs = some n ↔ Numeral ['+'] cs n := by
  constructor
  · intro h
    unfold readNat? at h
    split at h
    · exact .plus (by simp) (readDigits?_eq_some_iff.1 h)
    · exact .bare (readDigits?_eq_some_iff.1 h)
  · generalize hz : (n : Int) = z
    intro h
    cases h with
    | bare hd =>
      cases Int.ofNat_inj.1 hz
      obtain ⟨c, cs, rfl⟩ := List.exists_cons_of_ne_nil hd.ne_nil
      rw [readNat?, readDigits?_eq_some_iff.2 hd]
      rintro ds ⟨⟩
      exact hd.head_ne '+' rfl rfl
    | plus _ hd =>
      cases Int.ofNat_inj.1 hz
      exact readDigits?_eq_some_iff.2 hd
    | minus hs _ => simp at hs

theorem Numeral.mono {signs signs' : List Char} (hs : signs ⊆ signs') {cs : List Char} {z : Int}
    (h : Numeral signs cs z) : Numeral signs' cs z := by
  cases h with
  | bare hd => exact .bare hd
  | plus hp hd => exact .plus (hs hp) hd
  | minus hm hd => exact .minus (hs hm) hd

theorem readInt?_minus (cs : List Char) :
    readInt? ('-' :: cs) = (readDigits? cs).map fun n : Nat => -(n : Int) := by
  rw [readInt?]
  cases readDigits? cs <;> rfl

theorem readInt?_of_ne {cs : List Char} (h : ∀ ds, cs ≠ '-' :: ds) :
    readInt? cs = (readNat? cs).map fun n : Nat => (n : Int) := by
  rw [readInt?]
  · cases readNat? cs <;> rfl
  · exact h

theorem readInt?_eq_some_iff {cs : List Char} {z : Int} :
    readInt? cs = some z ↔ Numeral ['+', '-'] cs z := by
  constructor
  · intro h
    by_cases hcs : ∃ ds, cs = '-' :: ds
    · obtain ⟨ds, rfl⟩ := hcs
      rw [readInt?_minus] at h
      obtain ⟨n, hn, rfl⟩ := Option.map_eq_some_iff.1 h
      exact .minus (by simp) (readDigits?_eq_some_iff.1 hn)
    · rw [readInt?_of_ne fun ds hds => hcs ⟨ds, hds⟩] at h
      obtain ⟨n, hn, rfl⟩ := Option.map_eq_some_iff.1 h
      exact (readNat?_eq_some_iff.1 hn).mono (by simp)
  · intro h
    cases h with
    | bare hd =>
      obtain ⟨c, cs, rfl⟩ := List.exists_cons_of_ne_nil hd.ne_nil
      rw [readInt?_of_ne, readNat?_eq_some_iff.2 (.bare hd)]
      · rfl
      · rintro ds ⟨⟩
        exact hd.head_ne '-' rfl rfl
    | plus _ hd =>
      rw [readInt?_of_ne (by simp), readNat?_eq_some_iff.2 (.plus (by simp) hd)]
      rfl
    | minus _ hd =>
      rw [readInt?_minus, readDigits?_eq_some_iff.2 hd]
      rfl

/-- A text is read as a word exactly if it is a numeral of the word's number. -/
theorem readWord?_eq_some_iff {cs : List Char} {i : Int64} :
    readWord? cs = some i ↔ Numeral ['+', '-'] cs i.toInt := by
  rw [readWord?, Option.bind_eq_some_iff]
  constructor
  · rintro ⟨z, hz, hi⟩
    rw [toWord?_eq_some_iff.1 hi]
    exact readInt?_eq_some_iff.1 hz
  · exact fun h => ⟨_, readInt?_eq_some_iff.2 h, toWord?_toInt i⟩

/-- A text is not read as a word exactly if it is no numeral, or one of a number out of range. -/
theorem readWord?_eq_none_iff {cs : List Char} :
    readWord? cs = none ↔ ∀ z, Numeral ['+', '-'] cs z → OutOfRange z := by
  rw [readWord?, Option.bind_eq_none_iff]
  constructor
  · exact fun h z hz => toWord?_eq_none_iff.1 (h z (readInt?_eq_some_iff.2 hz))
  · exact fun h z hz => toWord?_eq_none_iff.2 (h z (readInt?_eq_some_iff.1 hz))

end ElementQuery.Text
