import TwoSorted.Parse
import TwoSorted.Typing.Checker

/-!
# Verdicts on texts

`verdict` reads a text and gives the type of its expression. If it cannot, it
reports the first fault under the label of the text, with its position if it
is a fault of the text and not of the types, or it says that the text is
incomplete: that it ends before its expression does.
-/

namespace TwoSorted

/-- Who finds a fault. -/
inductive Phase where
  | parser
  | lexer
  | checker
  deriving DecidableEq

namespace Phase

def ofCode? : Int → Option Phase
  | 0 => some parser
  | 1 => some lexer
  | 2 => some checker
  | _ => none

/-- A message about the text with the label `file`. Without a phase it is the
cause alone. -/
def headline (phase : Option Phase) (file : String) (q : Position)
    (cause : String) : String :=
  match phase with
  | some parser => "Parse Error: " ++ file ++ ":" ++ q.text ++ " " ++ cause
  | some lexer => "Lex Error: " ++ file ++ ":" ++ q.text ++ " " ++ cause
  | some checker => "Type Error: " ++ file ++ ": " ++ cause
  | none => cause

end Phase

/-- A fault of any phase. -/
inductive Cause where
  | lexical (fault : LexFault)
  | syntactic (fault : SyntaxFault)
  | typing (fault : TypeFault)
  deriving DecidableEq

namespace Cause

def phase : Cause → Phase
  | lexical _ => .lexer
  | syntactic _ => .parser
  | typing _ => .checker

def message : Cause → String
  | lexical fault => fault.message
  | syntactic fault => fault.message
  | typing fault => fault.message

/-- Whether the end of the file is among the causes. -/
def isEnd : Cause → Bool
  | lexical fault => fault.isEnd
  | syntactic _ => false
  | typing _ => false

end Cause

/-- A fault of a labelled text. -/
structure Report where
  file : String
  position : Position
  cause : Cause
  deriving DecidableEq

namespace Report

def message (r : Report) : String :=
  Phase.headline (some r.cause.phase) r.file r.position r.cause.message

end Report

/-- Why there is no answer. -/
inductive Failure where
  | incomplete
  /-- Reading the text has failed, and that is all there is to say. -/
  | brokenOff (why : ReadFailure)
  | rejected (report : Report)
  deriving DecidableEq

namespace Failure

/-- What is said of a text that ends too early. -/
def endOfInput : String := "EOF"

def message : Failure → String
  | incomplete => endOfInput
  | brokenOff why => why.message
  | rejected report => report.message

/-- Whether the end of the file is among the causes. -/
def isIncomplete : Failure → Bool
  | incomplete => true
  | brokenOff why => why.isEnd
  | rejected report => report.cause.isEnd

/-- The failure to read the text with the label `file`. -/
def ofStop (file : String) : Stop → Failure
  | .endOfInput => incomplete
  | .brokenOff why => brokenOff why
  | .lexical q fault => rejected ⟨file, q, .lexical fault⟩
  | .syntactic q fault => rejected ⟨file, q, .syntactic fault⟩

/-- The failure to type a tree from the text with the label `file`. -/
def ofTypeFault (file : String) (fault : TypeFault) : Failure :=
  rejected ⟨file, ⟨0, 0⟩, .typing fault⟩

end Failure

variable [Conversions]

/-- The expression that a labelled text holds. -/
def parseAs (file : String) (src : Source) : Except Failure Expr :=
  (parse src).mapError (Failure.ofStop file)

/-- The type of a tree from a labelled text. -/
def checkAs (file : String) (e : Expr) : Except Failure Ty :=
  (typeOf e).mapError (Failure.ofTypeFault file)

/-- The type of the expression that a labelled text holds. -/
def verdict (file : String) (src : Source) : Except Failure Ty := do
  checkAs file (← parseAs file src)

end TwoSorted
