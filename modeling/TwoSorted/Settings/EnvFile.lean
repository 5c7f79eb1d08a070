import TwoSorted.Settings.Environment
import TwoSorted.Text.Blank
import TwoSorted.Text.Letter
import TwoSorted.Text.Quoted

/-!
# Environment files

An environment file is a list of statements `NAME=value`, in which a colon does
as well as the equals sign and `export` may stand first. Blanks and comments,
from a `#` to the end of the line, may stand between statements.

* A name is judged byte by byte, each byte taken for the character that has its
  number.
* A bare value goes to the end of its line or to a `#` after a space.
* A quoted value goes to the next quote of its kind that no backslash precedes,
  over line ends if need be. In double quotes a backslash escapes.
* `$NAME` stands for the value that the name has got above, except in single
  quotes and after a backslash.

A name given twice has its last value. Names that are empty and values with a
`NUL` in them cannot stand in an environment, so they are passed over.
-/

namespace TwoSorted

namespace EnvFile

/-- Why a file is no list of statements. -/
inductive Fault where
  | badName (found : Char) (near : List Piece)
  | emptyStatement
  | unterminated (text : List Piece)
  deriving DecidableEq

/-- The text as it is read. -/
def readText (ps : List Piece) : String :=
  String.ofList (ps.map Piece.read)

def Fault.message : Fault → String
  | badName found near =>
    "unexpected character " ++ quote (String.singleton found) ++
      " in variable name near " ++ quotePieces near
  | emptyStatement => "zero length string"
  | unterminated text => "unterminated quoted value " ++ readText text

/-- A space within a line. -/
def isSpace (c : Char) : Bool :=
  c == '\t' || c == '\x0b' || c == '\x0c' || c == '\r' || c == ' ' ||
    c == '\x85' || c == '\xa0'

/-- The piece is a character of the kind; a stray byte is of none. -/
def isOf (kind : Char → Bool) : Piece → Bool
  | .char c => kind c
  | .stray _ => false

/-- The text with a line feed for each pair of carriage return and line feed. -/
def unifyLines : List Piece → List Piece
  | .char '\r' :: .char '\n' :: rest => .char '\n' :: unifyLines rest
  | p :: rest => p :: unifyLines rest
  | [] => []

/-- The text from the next statement on; `inComment` tells whether a comment
has begun. -/
def skipGap : (inComment : Bool) → List Piece → List Piece
  | _, [] => []
  | false, p :: rest =>
    if p.isBlank then skipGap false rest
    else if p = .char '#' then skipGap true rest
    else p :: rest
  | true, p :: rest => skipGap (p ≠ .char '\n') rest

/-- The statement without `export` and the spaces after it. -/
def dropExport (text : List Piece) : List Piece :=
  if text.take 6 = ['e', 'x', 'p', 'o', 'r', 't'].map .char &&
      ((text.drop 6).head?.elim false (isOf isSpace)) then
    (text.drop 6).dropWhile (isOf isSpace)
  else text

/-- A byte that may stand in a name or around it, by the character that has its
number. -/
def isNamePart (c : Char) : Bool :=
  isSpace c || c == '_' || c == '.' || isLetter c || c.isDigit ||
    c == '²' || c == '³' || c == '¹' || c == '¼' || c == '½' || c == '¾'

/-- The first byte of the piece that may not stand in a name. -/
def badByte? (p : Piece) : Option Char :=
  (p.bytes.map fun b => Char.ofNat b.toNat).find? fun b => !isNamePart b

/-- Cuts the text at the equals sign or colon after a name. Where neither
comes the name is empty, and nothing of the text is used up. -/
def scanName (text : List Piece) : (seen : List Piece) → List Piece →
    Except Fault (List Piece × List Piece)
  | _, [] => .ok ([], text)
  | seen, p :: rest =>
    if p = .char '=' ∨ p = .char ':' then
      .ok ((seen.dropWhile Piece.isBlank).reverse, rest)
    else match badByte? p with
      | some b => .error (.badName b text)
      | none => scanName text (p :: seen) rest

/-- A character of the names that values can refer to. -/
def isReferencePart (c : Char) : Bool :=
  ('A' ≤ c && c ≤ 'Z') || c.isDigit || c == '_'

/-- Splits the character `c` off the text if it stands first. -/
def optional (c : Char) (text : List Piece) : List Piece × List Piece :=
  if text.head? = some (.char c) then ([.char c], text.drop 1) else ([], text)

/-- Splits a reference after its dollar sign into the characters before the
name, the name, the brace after it, and the rest of the text. -/
def reference (text : List Piece) :
    List Piece × List Piece × List Piece × List Piece :=
  let (paren, text) := optional '(' text
  let (brace, text) := optional '\x7b' text
  let name := text.takeWhile (isOf isReferencePart)
  let (close, rest) := optional '\x7d' (text.dropWhile (isOf isReferencePart))
  (paren ++ brace, name, close, rest)

/-- Puts values in the place of references, in a text of at most `bound`
pieces. -/
def expandWithin (known : Bindings) : (bound : Nat) → List Piece → List Piece
  | 0, text => text
  | _, [] => []
  | bound + 1, .char '\\' :: .char '$' :: text =>
    let (before, name, close, rest) := reference text
    .char '$' :: before ++ name ++ close ++ expandWithin known bound rest
  | bound + 1, .char '$' :: text =>
    let (before, name, close, rest) := reference text
    let here :=
      if name.isEmpty then .char '$' :: before ++ close
      else ((known.lookup (readText name)).getD "").toList.map .char
    here ++ expandWithin known bound rest
  | bound + 1, p :: text => p :: expandWithin known bound text

/-- Puts values in the place of references. -/
def expand (known : Bindings) (text : List Piece) : List Piece :=
  expandWithin known text.length text

/-- Line ends in the place of their escapes. Other escapes stay. -/
def unescapeLines : List Piece → List Piece
  | .char '\\' :: .char 'n' :: rest => .char '\n' :: unescapeLines rest
  | .char '\\' :: .char 'r' :: rest => .char '\r' :: unescapeLines rest
  | .char '\\' :: p :: rest => .char '\\' :: p :: unescapeLines rest
  | p :: rest => p :: unescapeLines rest
  | [] => []

/-- The text without the backslashes before characters other than `$`. -/
def unescape : List Piece → List Piece
  | .char '\\' :: .char '$' :: rest => .char '\\' :: .char '$' :: unescape rest
  | .char '\\' :: p :: rest => p :: unescape rest
  | p :: rest => p :: unescape rest
  | [] => []

/-- The part of a line, given backwards, before its last `#` that follows a
space. -/
def beforeComment? : List Piece → Option (List Piece)
  | .char '#' :: p :: rest =>
    if isOf isSpace p then some (p :: rest) else beforeComment? (p :: rest)
  | _ :: rest => beforeComment? rest
  | [] => none

def isLineEnd (c : Char) : Bool :=
  c == '\n' || c == '\r'

/-- A value without quotes, and the text after it. -/
def bareValue (known : Bindings) (text : List Piece) : List Piece × List Piece :=
  let line := text.takeWhile fun p => !isOf isLineEnd p
  let kept := ((beforeComment? line.reverse).getD line.reverse).reverse
  (expand known (trimBoth (isOf isSpace) kept), text.dropWhile fun p => !isOf isLineEnd p)

/-- Cuts a text at the next quote that does not follow a backslash; `before` is
the piece before the text, and `seen` holds what was passed, backwards. -/
def untilQuote? (q : Piece) (before : Piece) (seen : List Piece) :
    List Piece → Option (List Piece × List Piece)
  | [] => none
  | p :: rest =>
    if p = q ∧ before ≠ .char '\\' then some (seen.reverse, rest)
    else untilQuote? q p (p :: seen) rest

/-- A value that begins with the quote `q`, and the text after it; `text` is
what follows that quote. -/
def quotedValue (known : Bindings) (q : Char) (text : List Piece) :
    Except Fault (List Piece × List Piece) :=
  match untilQuote? (.char q) (.char q) [] text with
  | none => .error (.unterminated ((.char q :: text).takeWhile (· ≠ .char '\n')))
  | some (inner, rest) =>
    let inner := trimBoth (isOf (· == q)) inner
    .ok (if q = '"' then expand known (unescape (unescapeLines inner)) else inner,
      rest)

/-- A value and the text after it. -/
def scanValue (known : Bindings) (text : List Piece) :
    Except Fault (List Piece × List Piece) :=
  match text with
  | .char '"' :: rest => quotedValue known '"' rest
  | .char '\'' :: rest => quotedValue known '\'' rest
  | text => .ok (bareValue known text)

/-- Reads the statements of a text of fewer than `bound` pieces. The names and
values come with the last one first. -/
def statements : (bound : Nat) → (known : Bindings) → List Piece →
    Except Fault Bindings
  | 0, known, _ => .ok known
  | bound + 1, known, text =>
    match skipGap false text with
    | [] => .ok known
    | p :: rest =>
      match dropExport (p :: rest) with
      | [] => .error .emptyStatement
      | text => do
        let (name, rest) ← scanName text [] text
        let (value, rest) ← scanValue known (rest.dropWhile (isOf isSpace))
        statements bound ((readText name, readText value) :: known) rest

/-- The names and values of a text. -/
def parse (text : List Piece) : Except Fault Bindings :=
  let text := unifyLines text
  statements (text.length + 1) [] text

/-- The names and values that can stand in an environment. -/
def settable (known : Bindings) : Bindings :=
  known.filter fun (name, value) =>
    name != "" && !value.toList.contains '\x00' && known.lookup name == some value

/-- What the bytes of a file say about names, or what is wrong with them. -/
def decode (bytes : List UInt8) : Except String Bindings :=
  match parse (pieces bytes) with
  | .ok known => .ok (settable known)
  | .error fault => .error fault.message

end EnvFile

end TwoSorted
