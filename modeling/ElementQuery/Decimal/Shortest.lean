/-
The shortest decimal of a double. The decimals that are read back as a magnitude form an interval
around it, whose ends belong to it when the mantissa is even. The shortest of them lies on the
coarsest grid of multiples of a power of ten that has a point in the interval, and of two such
points next to the magnitude the nearer one is taken, a tie going to the even one.
-/
import ElementQuery.Decimal.Magnitude

namespace ElementQuery.Decimal

/-- The decimal `digits * 10 ^ exponent`. -/
structure Scaled where
  digits : Nat
  exponent : Int
  deriving DecidableEq, Repr

namespace Scaled

/-- A decimal as a quotient of naturals. -/
def ratio (x : Scaled) : Nat × Nat :=
  let power := Magnitude.powerRatio 10 x.exponent
  (x.digits * power.1, power.2)

end Scaled

namespace Magnitude

/-- The ends of the interval of numbers that round to a magnitude, in quarters of the unit of its
mantissa; below a power of two the lower half is only half as wide. -/
def roundingEnds (x : Magnitude) : Magnitude × Magnitude :=
  let narrow := x.mantissa == Nat.pow 2 (precision - 1) && decide (leastExponent < x.exponent)
  (⟨4 * x.mantissa - (if narrow then 1 else 2), x.exponent - 2⟩,
   ⟨4 * x.mantissa + 2, x.exponent - 2⟩)

/-- Whether a decimal rounds to a magnitude. -/
def admits (x : Magnitude) (d : Scaled) : Bool :=
  let low := x.roundingEnds.1.ratio
  let high := x.roundingEnds.2.ratio
  let (num, den) := d.ratio
  if x.mantissa % 2 == 0 then
    decide (low.1 * den ≤ num * low.2) && decide (num * high.2 ≤ high.1 * den)
  else
    decide (low.1 * den < num * low.2) && decide (num * high.2 < high.1 * den)

/-- The point of the grid of multiples of `10 ^ exponent` that rounds to a magnitude and is
nearest to it. -/
def onGrid? (x : Magnitude) (exponent : Int) : Option Scaled :=
  let power := powerRatio 10 exponent
  let num := x.ratio.1 * power.2
  let den := x.ratio.2 * power.1
  let below : Scaled := ⟨num / den, exponent⟩
  let above : Scaled := ⟨num / den + 1, exponent⟩
  match x.admits below, x.admits above with
  | true, true => some ⟨roundHalfEven num den, exponent⟩
  | true, false => some below
  | false, true => some above
  | false, false => none

/-- The exponents of the grids that can hold a shortest decimal, the coarsest first. -/
def gridExponents : List Int := (List.range 633).map fun (i : Nat) => 308 - (i : Int)

/-- The shortest decimal that is read back as a magnitude, and of these the nearest. -/
def shortest (x : Magnitude) : Scaled := (gridExponents.findSome? x.onGrid?).getD ⟨0, 0⟩

end Magnitude

/-- Where the point of a decimal is written in place: between these exponents of its first
digit. Outside them one digit stands before the point and the exponent is written after it. -/
structure PointRange where
  least : Int
  greatest : Int

/-- Writes a non-zero decimal. A point always has a digit on either side, and an exponent always
has a sign. -/
def Scaled.write (range : PointRange) (x : Scaled) : String :=
  let digits := Nat.toDigits 10 x.digits
  let first : Int := x.exponent + digits.length - 1
  let zeros (n : Int) : List Char := List.replicate n.toNat '0'
  if range.least ≤ first ∧ first ≤ range.greatest then
    if first < 0 then String.ofList ("0.".toList ++ zeros (-first - 1) ++ digits)
    else if 0 ≤ x.exponent then String.ofList (digits ++ zeros x.exponent) ++ ".0"
    else
      let whole := (first + 1).toNat
      String.ofList (digits.take whole) ++ "." ++ String.ofList (digits.drop whole)
  else
    let fraction := if digits.length = 1 then [] else '.' :: digits.drop 1
    let sign := if first < 0 then "-" else "+"
    String.ofList (digits.take 1 ++ fraction) ++ "e" ++ sign ++ toString first.natAbs

/-- Writes a magnitude by its shortest decimal. -/
def Magnitude.write (range : PointRange) (x : Magnitude) : String :=
  if x.isZero then "0.0" else x.shortest.write range

end ElementQuery.Decimal
