/-
Magnitudes of finite doubles, `mantissa * 2 ^ exponent`, in exact arithmetic on naturals. A
quotient of naturals is rounded to the nearest magnitude, a tie going to the even mantissa, and
products and quotients of magnitudes are rounded once. A decimal `significand * 10 ^ exponent` is
read by rounding the significand and scaling it by rounded powers of ten, the largest of which is
`10 ^ 308`.
-/

namespace ElementQuery.Decimal

/-- The magnitude `mantissa * 2 ^ exponent` of a finite double. -/
structure Magnitude where
  mantissa : Nat
  exponent : Int
  deriving DecidableEq, Repr

namespace Magnitude

/-- The number of bits of a full mantissa. -/
def precision : Nat := 53

/-- The exponent of the smallest magnitudes. -/
def leastExponent : Int := -1074

/-- The exponent of the largest magnitudes. -/
def greatestExponent : Int := 971

/-- The magnitude of zero. -/
def zero : Magnitude := ⟨0, leastExponent⟩

/-- Whether a magnitude is zero. -/
def isZero (x : Magnitude) : Bool := x.mantissa == 0

/-- A power with an integer exponent, as a quotient of naturals. -/
def powerRatio (base : Nat) (exponent : Int) : Nat × Nat :=
  (base.pow exponent.toNat, base.pow (-exponent).toNat)

/-- A magnitude as a quotient of naturals. -/
def ratio (x : Magnitude) : Nat × Nat :=
  let power := powerRatio 2 x.exponent
  (x.mantissa * power.1, power.2)

end Magnitude

/-- A quotient rounded to the nearest natural, a tie going to the even one. -/
def roundHalfEven (num den : Nat) : Nat :=
  let below := num / den
  let twice := 2 * (num % den)
  if twice < den || (twice == den && below % 2 == 0) then below else below + 1

/-- The exponent of the largest power of two that is at most the quotient of two positive
naturals. -/
def binaryExponent (num den : Nat) : Int :=
  let guess : Int := (num.log2 : Int) - den.log2
  let power := Magnitude.powerRatio 2 guess
  if den * power.1 ≤ num * power.2 then guess else guess - 1

namespace Magnitude

/-- The magnitude nearest to a quotient, unless it is beyond the largest one. -/
def nearest? (num den : Nat) : Option Magnitude :=
  if num = 0 then some zero
  else
    let exponent := max (binaryExponent num den - (precision - 1 : Nat)) leastExponent
    let power := powerRatio 2 exponent
    let mantissa := roundHalfEven (num * power.2) (den * power.1)
    let x := if mantissa = Nat.pow 2 precision then ⟨Nat.pow 2 (precision - 1), exponent + 1⟩
      else ⟨mantissa, exponent⟩
    if greatestExponent < x.exponent then none else some x

/-- The product, rounded once. -/
def times? (x y : Magnitude) : Option Magnitude :=
  nearest? (x.ratio.1 * y.ratio.1) (x.ratio.2 * y.ratio.2)

/-- The quotient, rounded once. -/
def over? (x y : Magnitude) : Option Magnitude :=
  nearest? (x.ratio.1 * y.ratio.2) (x.ratio.2 * y.ratio.1)

/-- The exponent of the largest power of ten that a double holds. -/
def greatestTen : Nat := 308

/-- The magnitude nearest to a power of ten. -/
def ten? (n : Nat) : Option Magnitude := nearest? (Nat.pow 10 n) 1

/-- Multiplies by a power of ten; a power too large for a double leaves only zero. -/
def scaleUp? (x : Magnitude) (n : Nat) : Option Magnitude :=
  if n ≤ greatestTen then (ten? n).bind x.times?
  else if x.isZero then some x else none

/-- Divides by a power of ten, in steps of the largest power that a double holds. -/
def scaleDown? (x : Magnitude) (n : Nat) : Option Magnitude :=
  if n ≤ greatestTen then (ten? n).bind x.over?
  else if x.isZero then some x
  else ((ten? greatestTen).bind x.over?).bind fun y => scaleDown? y (n - greatestTen)
termination_by n
decreasing_by simp only [greatestTen] at *; omega

/-- Reads `significand * 10 ^ exponent`, unless it is beyond the largest magnitude. -/
def ofDecimal? (significand : Nat) (exponent : Int) : Option Magnitude := do
  let x ← nearest? significand 1
  if 0 ≤ exponent then x.scaleUp? exponent.toNat else x.scaleDown? (-exponent).toNat

end Magnitude

end ElementQuery.Decimal
