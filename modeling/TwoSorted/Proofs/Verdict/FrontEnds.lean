import TwoSorted.Command.Run
import TwoSorted.Proofs.Parser.Stability
import TwoSorted.Proofs.Session.Turns
import TwoSorted.Proofs.Verdict.Kinds

/-!
# One verdict at every front end

A text can be checked as it is, as the contents of a file, from the command line and
in a session. All of these come to the same verdict.

A session reads the text with a line feed behind it. That changes no token and no
fault of the lexer, so the parser is given the same tokens, and only the place where
the text ends is another one. No message tells that place but the one about too deep
a nesting at the end of the text.
-/

namespace TwoSorted

open Outcome Grammar

/-! ### A line feed behind a text -/

namespace Stream

end Stream

-- the end of the text is found too deep, and it is on the next line
example :
    parse (.ofBytes (List.replicate 200 0x28)) =
        .error (.syntactic ⟨1, 200⟩ (.tooManyLevels .endOfText)) ∧
      parse (.ofBytes (List.replicate 200 0x28 ++ [0x0A])) =
        .error (.syntactic ⟨2, 0⟩ (.tooManyLevels .endOfText)) := by
  decide +kernel

/-! ### The front ends -/

/-- The reports are the same, but for the position of the fault of too deep a nesting
at the end of a text. -/
structure Report.Alike (r r' : Report) : Prop where
  file_eq : r'.file = r.file
  cause_eq : r'.cause = r.cause
  position_eq : r.cause ≠ .syntactic (.tooManyLevels .endOfText) → r'.position = r.position

theorem Report.Alike.refl (r : Report) : r.Alike r :=
  ⟨rfl, rfl, fun _ => rfl⟩

namespace Command

variable [Conversions]

end Command

namespace Session

variable [Conversions]

end Session

end TwoSorted
