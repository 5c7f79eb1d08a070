import TwoSorted.Text.Printable
import TwoSorted.Text.Utf8

/-!
# Quoted text

Messages show a piece of text in double quotes, on one line and in printable
characters only. The quote and the backslash are escaped by a backslash, the
seven usual control characters have a letter, and whatever else cannot be
shown is written by its number: two digits for a stray byte or a control
character, four or eight for any other character.
-/

namespace TwoSorted

namespace Quoted

/-- The digit for `d < 16`, in lower case. -/
def hexDigit (d : Nat) : Char :=
  if d < 10 then Char.ofNat (d + '0'.toNat) else Char.ofNat (d - 10 + 'a'.toNat)

/-- The last `width` hexadecimal digits of `n`. -/
def hex : (width : Nat) → (n : Nat) → List Char
  | 0, _ => []
  | width + 1, n => hex width (n / 16) ++ [hexDigit (n % 16)]

/-- The letter of a control character that has one. -/
def letter? (c : Char) : Option Char :=
  match c.toNat with
  | 0x7 => some 'a'
  | 0x8 => some 'b'
  | 0x9 => some 't'
  | 0xA => some 'n'
  | 0xB => some 'v'
  | 0xC => some 'f'
  | 0xD => some 'r'
  | _ => none

/-- How a character is written between the quotes. -/
def char (c : Char) : List Char :=
  if c = '"' ∨ c = '\\' then ['\\', c]
  else if isPrintable c then [c]
  else match letter? c with
    | some l => ['\\', l]
    | none =>
      if c.toNat < 0x80 then '\\' :: 'x' :: hex 2 c.toNat
      else if c.toNat < 0x10000 then '\\' :: 'u' :: hex 4 c.toNat
      else '\\' :: 'U' :: hex 8 c.toNat

/-- How a piece is written between the quotes. -/
def piece : Piece → List Char
  | .char c => char c
  | .stray b => '\\' :: 'x' :: hex 2 b.toNat

end Quoted

/-- The text in quotes. -/
def quotePieces (ps : List Piece) : String :=
  String.ofList ('"' :: ps.flatMap Quoted.piece ++ ['"'])

/-- The string in quotes. -/
def quote (s : String) : String :=
  String.ofList ('"' :: s.toList.flatMap Quoted.char ++ ['"'])

end TwoSorted
