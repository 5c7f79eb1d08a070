import TwoSorted.Number.Decimal

/-!
# Numbers from text

A text is read as a number in one of three ways. With a point or a power of ten it is
a decimal. Without them it is an integer, whose base its first characters tell: an
integer of 64 bits if it fits, and else one of any size. What is no such text is
malformed. Signs in front and underscores between digits are not provided for, since no
numeral has them.

The number is then rounded to the binary64 format. How that is done is a parameter,
`Conversions`, with a conversion for each of the three ways; the instance here rounds to
the nearest number.
-/

namespace TwoSorted

namespace Numeral

/-- The value of a digit of base sixteen. -/
def digitValue (c : Char) : Nat :=
  if c.isDigit then c.toNat - '0'.toNat
  else if 'a' ≤ c ∧ c ≤ 'f' then c.toNat - 'a'.toNat + 10
  else c.toNat - 'A'.toNat + 10

/-- The number that digits spell in the given base. -/
def ofDigits (base : Nat) (ds : List Char) : Nat :=
  ds.foldl (fun n d => n * base + digitValue d) 0

/-- The number that the digits of an exponent spell. Once it has reached ten
thousand, further digits no longer count: the value is out of range then. -/
def exponentOf (ds : List Char) : Nat :=
  ds.foldl (fun n d => if n < 10000 then n * 10 + digitValue d else n) 0

/-- The number that a decimal numeral denotes. -/
def toDecimal (whole : List Char) (fraction : Option (List Char))
    (sign exponent : List Char) : Decimal :=
  let places := fraction.getD []
  let power : Int := exponentOf exponent
  ⟨ofDigits 10 (whole ++ places),
    (if sign = ['-'] then -power else power) - places.length⟩

/-- A letter that is a digit of base sixteen. -/
def isHexLetter (c : Char) : Bool :=
  ('a' ≤ c && c ≤ 'f') || ('A' ≤ c && c ≤ 'F')

def isHexMark (c : Char) : Bool :=
  c == 'x' || c == 'X'

def isExponentMark (c : Char) : Bool :=
  c == 'e' || c == 'E'

def isSign (c : Char) : Bool :=
  c == '+' || c == '-'

end Numeral

/-- What comes of reading a text as a number. -/
inductive Parsed (α : Type) where
  | value (a : α)
  /-- The number is too large; `a` is what stands for it. -/
  | outOfRange (a : α)
  | malformed

/-! ### Decimals -/

namespace Decimal

open Numeral

/-- The sign and the digits of a power of ten, if the text is one or is empty. -/
def power? : List Char → Option (List Char × List Char)
  | [] => some ([], [])
  | m :: t =>
    let sign := t.take 1 |>.filter isSign
    let ds := t.drop sign.length
    if isExponentMark m && !ds.isEmpty && ds.all Char.isDigit then some (sign, ds) else none

/-- The digits behind a point, if there is one, and what follows. -/
def fraction : List Char → List Char × List Char
  | [] => ([], [])
  | c :: t =>
    if c = '.' then (t.takeWhile Char.isDigit, t.dropWhile Char.isDigit) else ([], c :: t)

/-- The decimal that a text denotes. -/
def ofText? (t : List Char) : Option Decimal :=
  let whole := t.takeWhile Char.isDigit
  let (places, rest) := fraction (t.dropWhile Char.isDigit)
  if whole.isEmpty && places.isEmpty then none
  else (power? rest).map fun (sign, ds) => toDecimal whole (some places) sign ds

end Decimal

/-! ### Integers -/

namespace Numeral

/-- The base of the digits of an integer, and the digits. A zero in front tells base
eight, unless a letter for another base follows it. -/
def splitBase : List Char → Nat × List Char
  | [] => (10, [])
  | z :: ds =>
    if z ≠ '0' then (10, z :: ds)
    else match ds with
      | m :: d :: more =>
        if m = 'b' ∨ m = 'B' then (2, d :: more)
        else if m = 'o' ∨ m = 'O' then (8, d :: more)
        else if isHexMark m then (16, d :: more)
        else (8, ds)
      | ds => (8, ds)

/-- Whether the character is a digit of the base. -/
def isDigitOf (base : Nat) (c : Char) : Bool :=
  (c.isDigit || isHexLetter c) && digitValue c < base

/-- Goes on with digits after `n`, as long as the number fits into 64 bits. -/
def readDigits (base : Nat) (n : Nat) : List Char → Parsed Nat
  | [] => .value n
  | c :: cs =>
    if !isDigitOf base c then .malformed
    else
      let n := n * base + digitValue c
      if n < 1 <<< 64 then readDigits base n cs else .outOfRange ((1 <<< 64) - 1)

/-- The integer of 64 bits with a sign that a text denotes. -/
def parseInt64 (t : List Char) : Parsed Nat :=
  if t.isEmpty then .malformed
  else
    let (base, ds) := splitBase t
    match readDigits base 0 ds with
    | .malformed => .malformed
    | .outOfRange _ => .outOfRange ((1 <<< 63) - 1)
    | .value n => if n < 1 <<< 63 then .value n else .outOfRange ((1 <<< 63) - 1)

/-- The integer of any size that a text denotes. -/
def parseInteger? (t : List Char) : Option Nat :=
  let (base, ds) := splitBase t
  if !t.isEmpty && ds.all (isDigitOf base) then some (ofDigits base ds) else none

end Numeral

/-! ### Rounding -/

/-- The ways to get a binary64 number. -/
class Conversions where
  /-- From the text of a decimal. -/
  ofText : List Char → Binary64
  /-- From an integer of 64 bits. -/
  ofInt64 : Nat → Binary64
  /-- From an integer of any size. -/
  ofInteger : Nat → Binary64

/-- Every conversion takes the nearest number. -/
instance Conversions.nearest : Conversions where
  ofText t := (Decimal.ofText? t).elim .zero Decimal.toBinary64
  ofInt64 n := Decimal.toBinary64 ⟨n, 0⟩
  ofInteger n := Decimal.toBinary64 ⟨n, 0⟩

namespace Numeral

variable [Conversions]

/-- The binary64 number for a decimal. -/
def parseFloat (t : List Char) : Parsed Binary64 :=
  match Decimal.ofText? t with
  | none => .malformed
  | some _ =>
    let v := Conversions.ofText t
    if v.isInfinite then .outOfRange v else .value v

/-- The value of a text with a point or a power of ten. Infinity stands for a number
that is too large. -/
def floatValue? (t : List Char) : Option Binary64 :=
  match parseFloat t with
  | .value v => some v
  | .outOfRange v => some v
  | .malformed => none

/-- The value of a text without them. -/
def integerValue? (t : List Char) : Option Binary64 :=
  match parseInt64 t with
  | .value n => some (Conversions.ofInt64 n)
  | .outOfRange _ => (parseInteger? t).map Conversions.ofInteger
  | .malformed => none

/-- The value of digits of base ten. Zeros in front would tell another base, so they
are left out. -/
def wholeValue? (ds : List Char) : Option Binary64 :=
  let ds := ds.dropWhile (· == '0')
  if ds.isEmpty then some .zero else integerValue? ds

end Numeral

end TwoSorted
