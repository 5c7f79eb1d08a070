/-!
# Positions

A position names the character read last: its line, counted from one, and its
place in that line, counted in characters from one. Before the first character
of a line the column is zero.
-/

namespace TwoSorted

/-- A place in a text. -/
structure Position where
  line : Int
  column : Int
  deriving DecidableEq

namespace Position

/-- The position before the first character of a text. -/
def start : Position := ⟨1, 0⟩

/-- The position once `c` has been read as well. -/
def after (p : Position) (c : Char) : Position :=
  if c = '\n' then ⟨p.line + 1, 0⟩ else ⟨p.line, p.column + 1⟩

/-- The position as text. -/
def text (p : Position) : String :=
  toString p.line ++ ":" ++ toString p.column

@[simp] theorem after_newline (p : Position) :
    p.after '\n' = ⟨p.line + 1, 0⟩ := rfl

theorem after_of_ne {c : Char} (h : c ≠ '\n') (p : Position) :
    p.after c = ⟨p.line, p.column + 1⟩ := by
  simp only [after, h, if_false]

end Position

end TwoSorted
