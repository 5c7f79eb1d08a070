import TwoSorted.Number.Reading
import TwoSorted.Text.Digit
import TwoSorted.Text.Letter
import TwoSorted.Token.Cursor

/-!
# Numerals

A numeral is a run of digits with an optional fraction and an optional power
of ten, or `0x` with hexadecimal digits. `Numeral.scan` reads the longest one
that begins with a given character and converts it (`Numeral.value?`). A letter
or an underscore may not follow at once. Digits of other scripts can begin a
numeral but give it no value.
-/

namespace TwoSorted

/-- The parts of a numeral as they are written. -/
inductive Numeral where
  /-- A zero, the mark `x` or `X`, and hexadecimal digits. -/
  | hexadecimal (mark : List Char) (digits : List Char)
  /-- Digits, a fraction if there is a point, and an exponent with its mark
  and sign if there is one. -/
  | decimal (whole : List Char) (fraction : Option (List Char))
      (mark sign exponent : List Char)

namespace Numeral

/-- The numeral as it is written; a leading point gets a zero before it. -/
def text : Numeral → List Char
  | hexadecimal mark digits => '0' :: mark ++ digits
  | decimal whole fraction mark sign exponent =>
    whole ++ (fraction.elim [] ('.' :: ·)) ++ mark ++ sign ++ exponent

/-- Whether there is a point or a power of ten. -/
def isFloat : Numeral → Bool
  | hexadecimal _ _ => false
  | decimal _ fraction mark _ _ => fraction.isSome || !mark.isEmpty

/-- The value of the numeral, if its text is not malformed. -/
def value? [Conversions] (n : Numeral) : Option Binary64 :=
  if n.isFloat then floatValue? n.text
  else match n with
    | hexadecimal _ _ => integerValue? n.text
    | decimal _ _ _ _ _ => wholeValue? n.text

def isHexDigit (c : Char) : Bool :=
  isDecimalDigit c || isHexLetter c

/-- Reads the exponent of a decimal numeral if its mark follows. The answer is
`false` if the mark is there and no digits are. -/
def scanExponent (look : Lookahead) (whole : List Char)
    (fraction : Option (List Char)) (c : Cursor) : Bool × Numeral × Cursor :=
  let (mark, c) := c.takeIf look isExponentMark
  if mark.isEmpty then (true, decimal whole fraction [] [] [], c)
  else
    let (sign, c) := c.takeIf look isSign
    let (exponent, c) := c.span look isDecimalDigit
    (!exponent.isEmpty, decimal whole fraction mark sign exponent, c)

/-- Reads a numeral that begins with `first`, a point or a digit; `c` is the
text after it. The answer is `false` if the numeral breaks off. -/
def scanParts (look : Lookahead) (first : Char) (c : Cursor) :
    Bool × Numeral × Cursor :=
  if first = '.' then
    let (places, c) := c.span look isDecimalDigit
    scanExponent look ['0'] (some places) c
  else
    let (more, c) := c.span look isDecimalDigit
    let whole := first :: more
    let (mark, c') := c.takeIf look isHexMark
    if whole = ['0'] ∧ mark ≠ [] then
      let (digits, c) := c'.span look isHexDigit
      (true, hexadecimal mark digits, c)
    else
      let (dot, c) := c.takeIf look (· == '.')
      if dot.isEmpty then scanExponent look whole none c
      else
        let (places, c) := c.span look isDecimalDigit
        scanExponent look whole (some places) c

/-- Reads a numeral that begins with `first` and gives its value, or the text
that is no numeral. -/
def scan [Conversions] (look : Lookahead) (first : Char) (c : Cursor) :
    Except (List Char) Binary64 × Cursor :=
  let (whole, numeral, c) := scanParts look first c
  let next := look.ahead c.rest
  if !whole then (.error numeral.text, c)
  else if isLetter next || next == '_' then (.error (numeral.text ++ [next]), c)
  else match numeral.value? with
    | some v => (.ok v, c)
    | none => (.error numeral.text, c)

end Numeral

end TwoSorted
