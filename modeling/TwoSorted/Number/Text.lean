import TwoSorted.Number.Decimal

/-!
# Numbers as text

A number is written with the fewest digits that read back as it. From `0.0001`
up to but not including a million the digits stand around a decimal point;
outside that range one digit stands before the point and a power of ten
follows, with a sign and at least two digits. A negative number has a minus
sign, zero included, and an infinity has a sign always.
-/

namespace TwoSorted

namespace Decimal

/-- The least power of ten that is written with a decimal point only. -/
def leastPositional : Int := -4

/-- The least power of ten above those that are. -/
def endPositional : Int := 6

/-- The digits around a decimal point, `point` of them before it. -/
def positional (digits : List Char) (point : Int) : List Char :=
  let whole :=
    if point ≤ 0 then ['0']
    else digits.take point.toNat ++
      List.replicate (point.toNat - digits.length) '0'
  let fraction :=
    List.replicate (-point).toNat '0' ++ digits.drop point.toNat
  if fraction.isEmpty then whole else whole ++ '.' :: fraction

/-- At least two digits of an exponent, with its sign. -/
def exponentText (e : Int) : List Char :=
  let ds := Nat.toDigits 10 e.natAbs
  (if e < 0 then '-' else '+') :: (if ds.length < 2 then '0' :: ds else ds)

/-- One digit, the fraction, and a power of ten. -/
def scientific (digits : List Char) (e : Int) : List Char :=
  let fraction := digits.drop 1
  digits.take 1 ++ (if fraction.isEmpty then [] else '.' :: fraction) ++
    'e' :: exponentText e

/-- The decimal as text. -/
def text (d : Decimal) : List Char :=
  let e := d.point - 1
  if e < leastPositional ∨ endPositional ≤ e then scientific d.digits e
  else positional d.digits d.point

end Decimal

/-- The number as text. -/
def Binary64.text (v : Binary64) : String :=
  if v.isNaN then "NaN"
  else if v.isInfinite then if v.isNegative then "-Inf" else "+Inf"
  else
    let magnitude := (Decimal.shortest v.abs).text
    String.ofList (if v.isNegative then '-' :: magnitude else magnitude)

end TwoSorted
