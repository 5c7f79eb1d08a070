/-!
# Text as pieces

A text arrives as bytes. Read from the left it falls apart, in exactly one
way, into pieces: a piece is a character in its UTF-8 form, or a single byte
that begins no such form. Overlong forms, surrogates and values above
`0x10FFFF` are no characters, so each of their bytes is a piece of its own.

`pieces` cuts a text up, `Piece.bytes` is what a piece was cut from, and
`Piece.read` is the character a reader of the text sees, with `U+FFFD` in
place of a stray byte.
-/

namespace TwoSorted

/-- One piece of a text: a character, or a byte that belongs to none. -/
inductive Piece where
  | char (c : Char)
  | stray (b : UInt8)
  deriving DecidableEq

namespace Piece

/-- The character that stands for bytes that are no character. -/
def replacement : Char := '\uFFFD'

/-- The character seen by a reader of the text. -/
def read : Piece → Char
  | char c => c
  | stray _ => replacement

/-- The bytes that the piece was cut from. -/
def bytes : Piece → List UInt8
  | char c => String.utf8EncodeChar c
  | stray b => [b]

/-- The first byte of the piece. -/
def lead (p : Piece) : UInt8 :=
  p.bytes.headD 0

@[simp] theorem read_char (c : Char) : (char c).read = c := rfl

@[simp] theorem read_stray (b : UInt8) : (stray b).read = replacement := rfl

@[simp] theorem lead_stray (b : UInt8) : (stray b).lead = b := rfl

end Piece

namespace Utf8

/-- A byte that only continues a character. -/
def isContinuation (b : UInt8) : Bool :=
  0x80 ≤ b && b < 0xC0

/-- The character numbered `n`, unless a shorter form should have been used
(`n < least`) or there is no such character. -/
def scalar? (least n : Nat) : Option Char :=
  if least ≤ n ∧ n.isValidChar then some (Char.ofNat n) else none

/-- The six bits that a continuation byte carries. -/
def payload (b : UInt8) : Nat :=
  b.toNat - 0x80

/-- The character of a two-byte form. -/
def pair? (a b : UInt8) : Option Char :=
  if 0xC0 ≤ a ∧ a < 0xE0 ∧ isContinuation b then
    scalar? 0x80 ((a.toNat - 0xC0) * 0x40 + payload b)
  else none

/-- The character of a three-byte form. -/
def triple? (a b c : UInt8) : Option Char :=
  if 0xE0 ≤ a ∧ a < 0xF0 ∧ isContinuation b ∧ isContinuation c then
    scalar? 0x800 ((a.toNat - 0xE0) * 0x1000 + payload b * 0x40 + payload c)
  else none

/-- The character of a four-byte form. -/
def quad? (a b c d : UInt8) : Option Char :=
  if 0xF0 ≤ a ∧ a < 0xF8 ∧
      isContinuation b ∧ isContinuation c ∧ isContinuation d then
    scalar? 0x10000 ((a.toNat - 0xF0) * 0x40000 + payload b * 0x1000 +
      payload c * 0x40 + payload d)
  else none

end Utf8

open Utf8 in
/-- Cuts a text into its pieces. -/
def pieces : List UInt8 → List Piece
  | [] => []
  | a :: rest =>
    if a < 0x80 then .char (Char.ofNat a.toNat) :: pieces rest
    else match rest with
      | [] => [.stray a]
      | b :: rest =>
        match pair? a b with
        | some ch => .char ch :: pieces rest
        | none => match rest with
          | [] => .stray a :: pieces [b]
          | c :: rest =>
            match triple? a b c with
            | some ch => .char ch :: pieces rest
            | none => match rest with
              | [] => .stray a :: pieces [b, c]
              | d :: rest =>
                match quad? a b c d with
                | some ch => .char ch :: pieces rest
                | none => .stray a :: pieces (b :: c :: d :: rest)

@[simp] theorem pieces_nil : pieces [] = [] := rfl

/-- A byte below `0x80` is a character by itself. -/
theorem pieces_cons_ascii {a : UInt8} (h : a < 0x80) (rest : List UInt8) :
    pieces (a :: rest) = .char (Char.ofNat a.toNat) :: pieces rest := by
  rw [pieces.eq_def]
  simp only [h, if_true]

/-- The text that the pieces were cut from. -/
def Piece.join (ps : List Piece) : List UInt8 :=
  ps.flatMap Piece.bytes

end TwoSorted
