/-
JSON numbers. A number written without fraction and exponent is an integer if it fits a signed or
an unsigned 64-bit word; any other number is a double, and so is a negative zero. The significand
of a double is gathered from its leading digits as long as they fit an unsigned word; integer
digits beyond them only raise the exponent, and fraction digits beyond them are dropped.
-/
import ElementQuery.Decimal.Shortest
import ElementQuery.Text.Integer

namespace ElementQuery.Json

open ElementQuery.Decimal

/-- A JSON number. -/
inductive Number where
  /-- An integer that fits a signed word. -/
  | int (i : Int64)
  /-- An integer above the signed words that fits an unsigned one. -/
  | unsigned (n : UInt64) (above : Int64.maxValue.toInt < n.toNat)
  /-- A double, with the sign apart. -/
  | float (negative : Bool) (x : Magnitude)
  deriving DecidableEq

namespace Number

/-- Doubles are written with the point in place if the exponent of the first digit is from -5
to 15. -/
def pointRange : PointRange := ⟨-5, 15⟩

/-- The text of a number. -/
def text : Number → String
  | int i => Text.ofWord i
  | unsigned n _ => toString n.toNat
  | float negative x => (if negative then "-" else "") ++ x.write pointRange

/-- Equality of numbers: an integer differs from every double, and the two zeros are equal. -/
def same : Number → Number → Bool
  | float s x, float t y => (s == t && x == y) || (x.isZero && y.isZero)
  | a, b => a == b

end Number

/-- A number as written: its sign, the digits before the point, those after it, and the sign and
digits of its exponent. -/
structure Numeral where
  negative : Bool
  whole : List Char
  fraction : List Char
  exponent : Option (Bool × List Char)

namespace Numeral

/-- The digits taken into a significand as long as it stays at most `2 ^ 64 - 1`, and those left
over. -/
def gather (significand : Nat) : List Char → Nat × List Char
  | [] => (significand, [])
  | d :: ds =>
    let next := significand * 10 + (d.toNat - '0'.toNat)
    if next < UInt64.size then gather next ds else (significand, d :: ds)

/-- Exponents beyond 31 bits stand for zero or for a number that is too large. -/
def exponentLimit : Nat := 0x7fffffff

/-- The double that a numeral denotes, unless it is too large. -/
def toFloat? (x : Numeral) : Option Number :=
  let (high, wholeLeft) := gather 0 x.whole
  let (significand, fractionLeft) := gather high x.fraction
  let shift : Int := (wholeLeft.length : Int) - (x.fraction.length - fractionLeft.length : Nat)
  let magnitude := match x.exponent with
    | none => Magnitude.ofDecimal? significand shift
    | some (negative, digits) =>
      let exponent := Nat.ofDigitChars 10 digits 0
      if exponentLimit < exponent then
        if significand = 0 ∨ negative then some Magnitude.zero else none
      else Magnitude.ofDecimal? significand (if negative then shift - exponent else shift + exponent)
  magnitude.map (Number.float x.negative)

/-- The integer that a numeral without fraction and exponent denotes, if a word holds it; a
negative zero is none. -/
def toInteger? (x : Numeral) : Option Number :=
  let n := Nat.ofDigitChars 10 x.whole 0
  if x.negative then if n = 0 then none else (Text.toWord? (-(n : Int))).map Number.int
  else match Text.toWord? n with
    | some i => some (Number.int i)
    | none =>
      if h : Int64.maxValue.toInt < (UInt64.ofNat n).toNat ∧ n < UInt64.size then
        some (Number.unsigned (UInt64.ofNat n) h.1)
      else none

/-- The number that a numeral denotes, unless it is too large. -/
def number? (x : Numeral) : Option Number :=
  if x.fraction.isEmpty ∧ x.exponent.isNone then x.toInteger?.or x.toFloat? else x.toFloat?

end Numeral

end ElementQuery.Json
