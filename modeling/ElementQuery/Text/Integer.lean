/-
Integers written in decimal. A number is a non-empty run of ASCII digits, with any number of
leading zeros; a signed one may have a sign in front. Word-sized readers refuse what does not fit.
-/

namespace ElementQuery.Text

/-- The number that a non-empty run of digits denotes. -/
def readDigits? (cs : List Char) : Option Nat :=
  if cs.isEmpty || !cs.all Char.isDigit then none else some (Nat.ofDigitChars 10 cs 0)

/-- Reads digits after an optional plus sign. -/
def readNat? : List Char → Option Nat
  | '+' :: cs => readDigits? cs
  | cs => readDigits? cs

/-- Reads digits after an optional sign. -/
def readInt? : List Char → Option Int
  | '-' :: cs => (readDigits? cs).map fun n => -(n : Int)
  | cs => (readNat? cs).map fun n => (n : Int)

/-- The 64-bit word that holds an integer, if one does. -/
def toWord? (i : Int) : Option Int64 :=
  if Int64.minValue.toInt ≤ i ∧ i ≤ Int64.maxValue.toInt then some (Int64.ofInt i) else none

/-- Reads an integer that fits a signed 64-bit word. -/
def readWord? (cs : List Char) : Option Int64 := (readInt? cs).bind toWord?

/-- The decimal text of a word. -/
def ofWord (i : Int64) : String := toString i.toInt

theorem toWord?_toInt (i : Int64) : toWord? i.toInt = some i := by
  rw [toWord?, if_pos ⟨i.minValue_le_toInt, i.toInt_le⟩, Int64.ofInt_toInt]

end ElementQuery.Text
