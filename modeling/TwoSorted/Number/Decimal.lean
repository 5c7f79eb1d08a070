import TwoSorted.Number.Binary64

/-!
# Decimal numbers

A decimal is a whole coefficient with a power of ten. `Decimal.toBinary64`
reads it as the nearest binary64 number. `Decimal.shortest` goes the other way:
among the decimals with the fewest digits that read back as the given number
it takes the one nearest to that number, and the one with an even last digit if
two are equally near.
-/

namespace TwoSorted

/-- The number `coefficient * 10 ^ exponent`. -/
structure Decimal where
  coefficient : Nat
  exponent : Int
  deriving DecidableEq

namespace Decimal

/-- The binary64 number nearest to the decimal. -/
def toBinary64 (d : Decimal) : Binary64 :=
  Binary64.ofRatio (d.coefficient * Nat.pow 10 d.exponent.toNat)
    (Nat.pow 10 (-d.exponent).toNat)

/-- The number of digits of the coefficient. -/
def width (d : Decimal) : Nat :=
  (Nat.toDigits 10 d.coefficient).length

/-- The digits of the coefficient without the zeros at their end. -/
def digits (d : Decimal) : List Char :=
  if d.coefficient = 0 then []
  else ((Nat.toDigits 10 d.coefficient).reverse.dropWhile (· == '0')).reverse

/-- The number of digits before the decimal point, if positive; the number of
zeros right after it, if negative. -/
def point (d : Decimal) : Int :=
  if d.coefficient = 0 then 0
  else d.width + d.exponent

/-- A power of ten that lifts the finite number `v > 0` to one or more. -/
def lift (v : Binary64) : Nat :=
  (Binary64.scale - v.units.log2) / 3 + 1

/-- The least place `p` with `v < 10 ^ p`, for a finite `v` above zero: the
number of digits before the point once `v` is lifted, less those of the lift. -/
def leadingPlace (v : Binary64) : Int :=
  (Nat.toDigits 10 ((v.units * Nat.pow 10 (lift v)) >>> Binary64.scale)).length -
    (lift v : Int)

/-- Of the two multiples of `10 ^ e` around `v`, the nearer one that reads back
as `v`, if any does. -/
def neighbour? (v : Binary64) (e : Int) : Option Decimal :=
  let n := v.units * Nat.pow 10 (-e).toNat
  let d := Nat.pow 10 e.toNat <<< Binary64.scale
  let near : Decimal := ⟨roundDiv n d, e⟩
  let far : Decimal := ⟨2 * (n / d) + 1 - roundDiv n d, e⟩
  if near.toBinary64 = v then some near
  else if far.toBinary64 = v then some far
  else none

/-- All digits of `v`. -/
def exact (v : Binary64) : Decimal :=
  ⟨v.units * Nat.pow 5 Binary64.scale, -Binary64.scale⟩

/-- The decimal with the fewest digits that reads back as the finite number
`v ≥ 0`. Seventeen digits are always enough. -/
def shortest (v : Binary64) : Decimal :=
  if v.units = 0 then ⟨0, 0⟩
  else
    let p := leadingPlace v
    ((List.range 17).findSome? fun i : Nat =>
      neighbour? v (p - (i + 1 : Nat))).getD (exact v)

end Decimal

end TwoSorted
