import TwoSorted.Text.Utf8

/-!
# Blanks

The blanks are the characters with the `White_Space` property of Unicode.
`trim` removes the blank pieces at both ends of a text, and a text of blanks
only is what it leaves nothing of.
-/

namespace TwoSorted

/-- Whether `c` is white space. -/
def isBlank (c : Char) : Bool :=
  let n := c.toNat
  (0x9 ≤ n && n ≤ 0xD) || n == 0x20 || n == 0x85 || n == 0xA0 || n == 0x1680 ||
    (0x2000 ≤ n && n ≤ 0x200A) || n == 0x2028 || n == 0x2029 || n == 0x202F ||
    n == 0x205F || n == 0x3000

/-- Whether the piece is a blank; a stray byte is none. -/
def Piece.isBlank : Piece → Bool
  | char c => TwoSorted.isBlank c
  | stray _ => false

/-- The pieces without the elements at either end that satisfy `p`. -/
def trimBoth {α : Type} (p : α → Bool) (ps : List α) : List α :=
  ((ps.dropWhile p).reverse.dropWhile p).reverse

/-- The text without the blanks at its ends. -/
def trim (ps : List Piece) : List Piece :=
  trimBoth Piece.isBlank ps

/-- Whether the text holds nothing but blanks. -/
def isAllBlank (ps : List Piece) : Bool :=
  ps.all Piece.isBlank

end TwoSorted
