import TwoSorted.Verdict

/-!
# A parser that is used again

A `TextParser` reads one labelled text after the other. Between two texts it is left as
the last one left it: with a lexer somewhere in the text, perhaps with a token held, and
after a fault perhaps with a level that was entered and not left. A new text sets all of
this back.
-/

namespace TwoSorted

/-- The label of the text, the lexer on it, and how many expressions are open. -/
structure TextParser where
  file : String
  lexer : Lexer
  levels : Nat

namespace TextParser

/-- A parser that has read nothing. -/
def new : TextParser :=
  ⟨"", .start (.ofBytes []), 0⟩

/-- A step of the parser. It leaves the parser in some state also if it fails. -/
abbrev Step := EStateM Failure TextParser

variable [Conversions]

/-- The token ahead, which stays there. -/
def look : Step Token := fun p =>
  match p.lexer.peek with
  | (.ok t, l) => .ok t { p with lexer := l }
  | (.error stop, l) => .error (.ofStop p.file stop) { p with lexer := l }

/-- Stops at a token. -/
def refuse {α : Type} (q : Position) (fault : SyntaxFault) : Step α := fun p =>
  .error (.ofStop p.file (.syntactic q fault)) p

/-- Takes the symbol `wanted`, or stops at what is there instead. -/
def consume (wanted : Symbol) : Step Unit := fun p =>
  match p.lexer.next with
  | (.error stop, l) => .error (.ofStop p.file stop) { p with lexer := l }
  | (.ok t, l) =>
    if t.symbol = wanted then .ok () { p with lexer := l }
    else refuse t.position (.mismatch wanted t.symbol) { p with lexer := l }

/-- Opens an expression that begins with the token `t`. -/
def enterLevel (t : Token) : Step Unit := fun p =>
  let p := { p with levels := p.levels + 1 }
  if Parser.maxLevels < p.levels then refuse t.position (.tooManyLevels t.symbol) p
  else .ok () p

def leaveLevel (p : TextParser) : TextParser :=
  { p with levels := p.levels - 1 }

/-- Closes the expression after the step, however it ends. -/
def leaving {α : Type} (step : Step α) : Step α := fun p =>
  match step p with
  | .ok a p => .ok a p.leaveLevel
  | .error failure p => .error failure p.leaveLevel

/-- Reads an operand; `nested` reads the expression in parentheses. -/
def operand (nested : Step Expr) : Step Expr := do
  let t ← look
  match t.symbol with
  | .bool b =>
    consume (.bool b)
    return .bool b
  | .number v =>
    consume (.number v)
    return .number v
  | .openParen =>
    consume .openParen
    let e ← nested
    consume .closeParen
    return e
  | .endOfText => throw .incomplete
  | found => refuse t.position (.unexpected found)

/-- Reads the operands that are still to be added to `left`, of which there are
fewer than `bound`. -/
def summands (nested : Step Expr) : (bound : Nat) → (left : Expr) → Step Expr
  | 0, left => return left
  | bound + 1, left => do
    let t ← look
    if t.symbol = .plus then
      consume .plus
      let right ← operand nested
      summands nested bound (.add left right)
    else return left

/-- Reads a sum of at most `bound` operands. -/
def sum (nested : Step Expr) (bound : Nat) : Step Expr := do
  let left ← operand nested
  summands nested bound left

/-- Reads an expression in a text of fewer than `bound` tokens. There is room for
`levels` more expressions in each other. -/
def expression (bound : Nat) : (levels : Nat) → Step Expr
  | 0 => do
    let t ← look
    enterLevel t
    refuse t.position (.tooManyLevels t.symbol)
  | levels + 1 => do
    let t ← look
    enterLevel t
    leaving do
      let test ← sum (expression bound levels) bound
      let t ← look
      if t.symbol = .question then
        consume .question
        let yes ← expression bound levels
        consume .colon
        let no ← expression bound levels
        return .cond test yes no
      else return test

/-- Reads a whole text of fewer than `bound` tokens as one expression. -/
def program (bound : Nat) : Step Expr := do
  let e ← expression bound Parser.maxLevels
  let t ← look
  if t.symbol = .endOfText then return e
  else refuse t.position (.trailing t.symbol)

/-- Sets the parser back and reads the text with the label `file` as one expression. -/
def parse (p : TextParser) (file : String) (src : Source) :
    Except Failure Expr × TextParser :=
  let l := Lexer.start src
  match program (l.cursor.rest.length + 1) { p with file := file, lexer := l, levels := 0 } with
  | .ok e p => (.ok e, p)
  | .error failure p => (.error failure, p)

end TextParser

end TwoSorted
