import TwoSorted.Position
import TwoSorted.Text.Utf8

/-!
# Reading a text piece by piece

A `Cursor` is what is left of a text with the position reached in it. Before a
piece is read, only a `Lookahead` of it is seen: one character that stands for
the piece. The lexer looks at the first byte alone and takes its number for
that of a character, which is right for every character below `0x80`;
`Lookahead.whole` would see the character itself. At the end of the text the
character seen is `NUL`.
-/

namespace TwoSorted

/-- The character that is seen of a piece before the piece is read. -/
abbrev Lookahead := Piece → Char

namespace Lookahead

/-- The character numbered by the first byte of the piece. -/
def byte : Lookahead := fun p => Char.ofNat p.lead.toNat

/-- The character of the piece. -/
def whole : Lookahead := Piece.read

/-- What is seen of a text: something of its first piece, or `NUL`. -/
def ahead (look : Lookahead) : List Piece → Char
  | [] => '\x00'
  | p :: _ => look p

@[simp] theorem ahead_nil (look : Lookahead) : look.ahead [] = '\x00' := rfl

@[simp] theorem ahead_cons (look : Lookahead) (p : Piece) (ps : List Piece) :
    look.ahead (p :: ps) = look p := rfl

end Lookahead

/-- The rest of a text and the position of the character before it. -/
structure Cursor where
  rest : List Piece
  position : Position

namespace Cursor

/-- The position after reading all of `ps`. -/
def advance (position : Position) (ps : List Piece) : Position :=
  ps.foldl (fun q p => q.after p.read) position

@[simp] theorem advance_nil (q : Position) : advance q [] = q := rfl

@[simp] theorem advance_cons (q : Position) (p : Piece) (ps : List Piece) :
    advance q (p :: ps) = advance (q.after p.read) ps := rfl

theorem advance_append (q : Position) (ps qs : List Piece) :
    advance q (ps ++ qs) = advance (advance q ps) qs := by
  simp only [advance, List.foldl_append]

/-- Reads the longest run of pieces of which `keep` holds as they are seen. -/
def span (look : Lookahead) (keep : Char → Bool) (c : Cursor) :
    List Char × Cursor :=
  let run := c.rest.takeWhile fun p => keep (look p)
  (run.map Piece.read,
    ⟨c.rest.dropWhile fun p => keep (look p), advance c.position run⟩)

/-- Reads one piece if `keep` holds of it as it is seen. -/
def takeIf (look : Lookahead) (keep : Char → Bool) (c : Cursor) :
    List Char × Cursor :=
  match c.rest with
  | [] => ([], c)
  | p :: rest =>
    if keep (look p) then ([p.read], ⟨rest, c.position.after p.read⟩)
    else ([], c)

/-- White space between tokens. -/
def isLayout (c : Char) : Bool :=
  c == ' ' || c == '\t' || c == '\n' || c == '\r'

/-- Skips white space and comments. A comment begins with two slashes and ends
before a line feed or a `NUL`; `inComment` tells whether one has begun. -/
def skipLayout (look : Lookahead) : (inComment : Bool) → Position → List Piece → Cursor
  | _, q, [] => ⟨[], q⟩
  | false, q, p :: rest =>
    if isLayout (look p) then skipLayout look false (q.after p.read) rest
    else if p.read = '/' ∧ look.ahead rest = '/' then
      skipLayout look true (q.after p.read) rest
    else ⟨p :: rest, q⟩
  | true, q, p :: rest =>
    if look p = '\n' then skipLayout look false (q.after p.read) rest
    else if look p = '\x00' then ⟨p :: rest, q⟩
    else skipLayout look true (q.after p.read) rest

end Cursor

end TwoSorted
