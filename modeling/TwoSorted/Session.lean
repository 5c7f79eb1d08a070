import TwoSorted.Log
import TwoSorted.TextParser

/-!
# Interactive sessions

A session is fed lines and answers each expression with its type or its fault.
An expression may span several lines: as long as the lines fed so far end before
the expression does, they are pending, and the prompt says so. Pending lines are
dropped by an interrupt, and by the end of the input with a message. Lines of
blanks only do not begin an expression.

`Session.run` is a whole session. How lines come to be entered is not its concern:
it is given what one attempt after the other to read a line has come to.
-/

namespace TwoSorted

/-- What a step of a session writes. -/
structure Output where
  out : String
  err : String
  log : List LogRecord

namespace Output

def none : Output := ⟨"", "", []⟩

/-- Writes `a`, then `b`. -/
def append (a b : Output) : Output :=
  ⟨a.out ++ b.out, a.err ++ b.err, a.log ++ b.log⟩

instance : Append Output := ⟨append⟩

end Output

/-- What is written around a text to show it in a color. It does not break the line. -/
structure Style where
  opening : String
  closing : String
  opening_oneLine : '\n' ∉ opening.toList
  closing_oneLine : '\n' ∉ closing.toList

namespace Style

/-- No color. -/
def plain : Style := ⟨"", "", by simp, by simp⟩

def paint (style : Style) (text : String) : String :=
  style.opening ++ text ++ style.closing

end Style

/-- The state between two lines, and the settings of the session. -/
structure Session where
  /-- The prompt for the first line of an expression. -/
  firstPrompt : String
  typeStyle : Style
  failureStyle : Style
  /-- The parser that reads all of the texts. -/
  parser : TextParser
  pending : List UInt8
  prompt : String

namespace Session

/-- The label of the lines of a session. -/
def label : String := "<repl>"

/-- The prompt for the further lines of an expression. -/
def morePrompt : String := "...> "

/-- A new session. -/
def start (firstPrompt : String) (typeStyle failureStyle : Style) : Session :=
  ⟨firstPrompt, typeStyle, failureStyle, .new, [], firstPrompt⟩

/-- A line with a type. -/
def typeLine (s : Session) (t : Ty) : String :=
  s.typeStyle.paint t.name ++ "\n"

/-- A line with the message of a failure. -/
def failureLine (s : Session) (failure : Failure) : String :=
  s.failureStyle.paint failure.message ++ "\n"

/-- The session with nothing pending. -/
def reset (s : Session) : Session :=
  { s with pending := [], prompt := s.firstPrompt }

/-- The record of an expression that was read. -/
def readRecord (e : Expr) : LogRecord :=
  ⟨"parsed expression", [("expr", e.text), ("depth", toString e.depth)]⟩

/-- The record of a node that breaks a typing rule. -/
def mismatchRecord (m : Mismatch) : LogRecord :=
  ⟨"check failed",
    [("kind", m.kind.name), ("locus", m.locus.name), ("at", m.node.text)]⟩

/-- What is written about an expression that was read. -/
def answer (s : Session) (e : Expr) : Output :=
  match typeOf e with
  | .ok t => ⟨s.typeLine t, "", [readRecord e]⟩
  | .error fault =>
    let records := match fault with
      | .missing => []
      | .mismatch m => [mismatchRecord m]
    ⟨"", s.failureLine (.ofTypeFault label fault), readRecord e :: records⟩

/-- What a line comes to: the session after it, what is written, and the prompt that
is asked for. -/
structure Fed where
  session : Session
  output : Output
  prompt : String

variable [Conversions]

/-- Takes a line. -/
def feed (s : Session) (line : List UInt8) : Fed :=
  let text := s.pending ++ line ++ [0x0A]
  if isAllBlank (pieces text) then
    let s := { s with pending := [] }
    ⟨s, .none, s.prompt⟩
  else
    let (result, parser) := s.parser.parse label (.ofBytes text)
    let s := { s with parser := parser }
    match result with
    | .error failure =>
      if failure.isIncomplete then
        let s := { s with pending := text, prompt := morePrompt }
        ⟨s, .none, s.prompt⟩
      else
        let s := s.reset
        ⟨s, ⟨"", s.failureLine failure, []⟩, s.prompt⟩
    | .ok e =>
      let s := s.reset
      ⟨s, s.answer e, s.prompt⟩

/-- Drops what is pending, and tells whether anything was. -/
def interrupt (s : Session) : Session × Bool :=
  if s.pending.isEmpty then (s, false) else (s.reset, true)

/-- The message about pending text that is dropped at the end of the input. -/
def droppedMessage (text : List Piece) : String :=
  "Parse Error: " ++ label ++ ": unexpected end of input, dropped " ++
    quotePieces text ++ "\n"

/-- Drops what is pending because no more input will come. -/
def flush (s : Session) : Session × Output :=
  let text := trim (pieces s.pending)
  (s.reset,
    if text.isEmpty then .none
    else ⟨"", s.failureStyle.paint (droppedMessage text), []⟩)

/-- The message after an interrupt that did not end the session. -/
def quitHint : String := "Press ctrl-c again to quit.\n"

/-- What an attempt to read a line comes to. -/
inductive Entry where
  | line (bytes : List UInt8)
  | interrupt
  | endOfInput
  | failure (message : String)

/-- A session that is held: the prompt that is shown, what is written so far, and
whether it has ended. -/
structure Dialogue where
  session : Session
  shown : String
  written : Output
  ended : Bool

namespace Dialogue

/-- Goes on after an attempt to read a line. -/
def take (d : Dialogue) : Entry → Dialogue
  | .line bytes =>
    let fed := d.session.feed bytes
    { d with
      session := fed.session
      shown := fed.prompt
      written := d.written ++ fed.output }
  | .interrupt =>
    match d.session.interrupt with
    | (s, true) =>
      { d with session := s, shown := s.prompt, written := d.written ++ ⟨"", quitHint, []⟩ }
    | (s, false) => { d with session := s, ended := true }
  | .endOfInput =>
    let (s, flushed) := d.session.flush
    { d with session := s, written := d.written ++ flushed, ended := true }
  | .failure message => { d with written := d.written ++ ⟨"", message ++ "\n", []⟩ }

/-- Reads on until the session has ended or there is nothing left. -/
def run (d : Dialogue) : List Entry → Dialogue
  | [] => d
  | entry :: rest => if d.ended then d else (d.take entry).run rest

end Dialogue

/-- The session before its first line is read. -/
def opened (s : Session) : Dialogue :=
  ⟨s, s.firstPrompt, .none, false⟩

/-- Holds a session over the entries. -/
def run (s : Session) (entries : List Entry) : Dialogue :=
  s.opened.run entries

end Session

end TwoSorted
