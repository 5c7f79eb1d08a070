import TwoSorted.Fault
import TwoSorted.Token.Numeral

/-!
# The lexer

A `Source` is a text together with what happens to a reader that goes on past
its last byte: it finds the end, or every further attempt to read fails. A
failure that has the end of the file among its causes is not told from the end. A
`Lexer` is at some place in a source. `Lexer.next` gives the next token, and
goes on behind the faulty characters when it is asked again after a fault.
Tokens can be put back with `Lexer.back`, and the one put back last comes
first. `Lexer.peek` gives the token that `next` would give and keeps it for
`next`; at the end it gives the symbol `endOfText` instead of stopping.
-/

namespace TwoSorted

/-- What a reader finds after the last byte of a text. -/
inductive Ending where
  | endOfFile
  | failure (why : ReadFailure)
  deriving DecidableEq

/-- A text and how it ends. -/
structure Source where
  bytes : List UInt8
  ending : Ending

namespace Source

/-- A text that is all there. -/
def ofBytes (bytes : List UInt8) : Source :=
  ⟨bytes, .endOfFile⟩

/-- The UTF-8 form of a string. -/
def ofString (s : String) : Source :=
  ofBytes s.toUTF8.toList

end Source

/-- Why there is no token after the last piece of a text. -/
def Ending.stop (ending : Ending) (q : Position) : Stop :=
  match ending with
  | endOfFile => .endOfInput
  | failure why => if why.isEnd then .brokenOff why else .lexical q (.unreadable why)

/-- A place in a source, and the tokens put back there, the last one first. -/
structure Lexer where
  look : Lookahead
  ending : Ending
  cursor : Cursor
  held : List Token

namespace Lexer

/-- The lexer at the start of a source, with the given way to look ahead. -/
def startWith (look : Lookahead) (src : Source) : Lexer where
  look := look
  ending := src.ending
  cursor := ⟨pieces src.bytes, Position.start⟩
  held := []

/-- The lexer at the start of a source. -/
def start (src : Source) : Lexer :=
  startWith Lookahead.byte src

/-- The position of the character read last. -/
def position (l : Lexer) : Position :=
  l.cursor.position

/-- A character that can continue a word. -/
def isWordPart (c : Char) : Bool :=
  isLetter c || isDecimalDigit c || c == '_'

/-- Reads a word that begins with `first` and gives its symbol. -/
def scanWord (look : Lookahead) (first : Char) (c : Cursor) :
    Except LexFault Symbol × Cursor :=
  let (more, c) := c.span look isWordPart
  match Symbol.ofWord? (first :: more) with
  | some s => (.ok s, c)
  | none => (.error (.unknownWord (String.ofList (first :: more))), c)

variable [Conversions]

/-- Reads a number that begins with `first` and gives its symbol. -/
def scanNumber (look : Lookahead) (first : Char) (c : Cursor) :
    Except LexFault Symbol × Cursor :=
  match Numeral.scan look first c with
  | (.ok v, c) => (.ok (.number v), c)
  | (.error near, c) => (.error (.malformedNumber (String.ofList near)), c)

/-- Reads the symbol that begins with `first`; `c` is the text after it. -/
def scanSymbol (look : Lookahead) (first : Char) (c : Cursor) :
    Except LexFault Symbol × Cursor :=
  match Symbol.ofChar? first with
  | some s => (.ok s, c)
  | none =>
    if isDecimalDigit first ||
        (first == '.' && isDecimalDigit (look.ahead c.rest)) then
      scanNumber look first c
    else if isLetter first || first == '_' then scanWord look first c
    else (.error (.unexpectedCharacter first), c)

/-- Reads a token. -/
def scan (look : Lookahead) (ending : Ending) (c : Cursor) :
    Except Stop Token × Cursor :=
  let c := Cursor.skipLayout look false c.position c.rest
  match c.rest with
  | [] => (.error (ending.stop c.position), c)
  | p :: rest =>
    let q := c.position.after p.read
    match scanSymbol look p.read ⟨rest, q⟩ with
    | (.ok s, c) => (.ok ⟨s, q⟩, c)
    | (.error fault, c) => (.error (.lexical c.position fault), c)

/-- The next token. -/
def next (l : Lexer) : Except Stop Token × Lexer :=
  match l.held with
  | t :: held => (.ok t, { l with held := held })
  | [] =>
    let (answer, cursor) := scan l.look l.ending l.cursor
    (answer, { l with cursor := cursor })

/-- Puts a token back, so that `next` gives it. -/
def back (l : Lexer) (t : Token) : Lexer :=
  { l with held := t :: l.held }

/-- The token that `next` would give, or `endOfText` at the end. -/
def peek (l : Lexer) : Except Stop Token × Lexer :=
  match l.held with
  | t :: _ => (.ok t, l)
  | [] =>
    match l.next with
    | (.ok t, l) => (.ok t, l.back t)
    | (.error stop, l) =>
      if stop.isEnd then (.ok ⟨.endOfText, l.position⟩, l) else (.error stop, l)

end Lexer

end TwoSorted
