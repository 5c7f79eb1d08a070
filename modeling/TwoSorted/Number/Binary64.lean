/-!
# Binary64 numbers

A number is held as the 64 bits of the IEEE binary64 format. Every magnitude
of the format is a whole multiple of `2 ^ (-1074)`, so a finite number is known
by the natural number `units` that counts these, and nothing here leaves the
natural numbers.

The bit patterns of the non-negative numbers are ordered as the numbers are.
With `k` the number of low bits of the units that the format drops and `m` the
53 bits it keeps, the pattern is `k * 2 ^ 52 + m`, for subnormal and normal
numbers alike: a carry out of `m` moves on to the next exponent by itself.
`ofRatio` uses this to round a quotient to the nearest number.
-/

namespace TwoSorted

/-- A number of the binary64 format, as its bits. -/
structure Binary64 where
  bits : UInt64
  deriving DecidableEq

/-- The integer nearest to `n / d`; a half goes to the even neighbour. -/
def roundDiv (n d : Nat) : Nat :=
  let q := n / d
  let r := n % d
  if 2 * r < d then q
  else if d < 2 * r then q + 1
  else q + q % 2

namespace Binary64

/-- The pattern of the non-negative infinity. -/
def infinityBits : Nat := 0x7FF <<< 52

/-- The number with the given bit pattern. -/
def ofPattern (n : Nat) : Binary64 :=
  ⟨n.toUInt64⟩

def zero : Binary64 := ofPattern 0

def infinity : Binary64 := ofPattern infinityBits

/-- A value that is no number. -/
def nan : Binary64 := ofPattern (infinityBits + (1 <<< 51) + 1)

/-- The unit that magnitudes are counted in is `2 ^ (-scale)`. -/
def scale : Nat := 1074

/-- How many low bits of `units` do not fit into 53 bits. -/
def excess (units : Nat) : Nat :=
  units.log2 - 52

/-- The pattern of the number nearest to `n / d` units. -/
def nearestPattern (n d : Nat) : Nat :=
  let k := excess (n / d)
  min ((k <<< 52) + roundDiv n (d <<< k)) infinityBits

/-- The number nearest to `n / d`. A half goes to the even neighbour, and from
`2 ^ 1024 - 2 ^ 970` on the answer is infinity. -/
def ofRatio (n d : Nat) : Binary64 :=
  ofPattern (nearestPattern (n <<< scale) d)

/-- Whether the sign bit is set. -/
def isNegative (v : Binary64) : Bool :=
  1 <<< 63 ≤ v.bits.toNat

/-- The pattern without its sign bit. -/
def pattern (v : Binary64) : Nat :=
  v.bits.toNat % (1 <<< 63)

/-- The number without its sign. -/
def abs (v : Binary64) : Binary64 :=
  ofPattern v.pattern

def isInfinite (v : Binary64) : Bool :=
  v.pattern == infinityBits

def isNaN (v : Binary64) : Bool :=
  infinityBits < v.pattern

/-- The magnitude of a finite number, counted in units. -/
def units (v : Binary64) : Nat :=
  let e := v.pattern >>> 52
  let f := v.pattern % (1 <<< 52)
  if e = 0 then f else ((1 <<< 52) + f) <<< (e - 1)

end Binary64

end TwoSorted
