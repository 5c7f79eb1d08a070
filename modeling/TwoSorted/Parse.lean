import TwoSorted.Parser
import TwoSorted.Token.Lexer

/-!
# From a text to an expression

`parse` puts the parser on top of the lexer. Tokens are made one at a time, as
the parser asks for them, so a fault stops the parser before anything behind it
is read.
-/

namespace TwoSorted

variable [Conversions]

namespace Lexer

/-- The token ahead, as a step that can stop. -/
def ahead (l : Lexer) : Except Stop (Token × Lexer) :=
  match l.peek with
  | (.ok t, l) => .ok (t, l)
  | (.error stop, _) => .error stop

/-- Takes the symbol `wanted`, or stops at what is there instead. -/
def expect (wanted : Symbol) (l : Lexer) : Except Stop Lexer :=
  match l.next with
  | (.error stop, _) => .error stop
  | (.ok t, l) =>
    if t.symbol = wanted then .ok l
    else .error (.syntactic t.position (.mismatch wanted t.symbol))

/-- The lexer as a source of tokens for the parser. -/
def reader : Reader Lexer :=
  ⟨ahead, expect, expect⟩

/-- Reads all that is left as one expression. A text has no more tokens than
pieces. -/
def parse (l : Lexer) : Except Stop Expr :=
  Parser.program reader (l.cursor.rest.length + 1) l

end Lexer

/-- Reads a source as one expression. -/
def parse (src : Source) : Except Stop Expr :=
  (Lexer.start src).parse

end TwoSorted
