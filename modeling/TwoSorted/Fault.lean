import TwoSorted.Text.Quoted
import TwoSorted.Token

/-!
# Faults of a text

What can be wrong with a text before its types are looked at. A `LexFault`
makes some characters no token, a `SyntaxFault` makes some token no part of an
expression. Reading a text stops at its first fault or where the text ends too
early, and `Stop` says which.

A text that cannot be read to its end breaks off with a `ReadFailure`. One that
has the end of the file among its causes passes for the end.
-/

namespace TwoSorted

/-- Why a text cannot be read on. -/
structure ReadFailure where
  message : String
  /-- Whether the end of the file is among the causes. -/
  isEnd : Bool
  deriving DecidableEq

/-- Why some characters are no token. -/
inductive LexFault where
  | unexpectedCharacter (c : Char)
  | unknownWord (w : String)
  | malformedNumber (near : String)
  | unreadable (why : ReadFailure)
  deriving DecidableEq

namespace LexFault

def message : LexFault → String
  | unexpectedCharacter c => "unexpected character " ++ String.singleton c
  | unknownWord w => "unknown identifier " ++ quote w
  | malformedNumber near => "malformed number near " ++ near
  | unreadable why => why.message

/-- Whether the end of the file is among the causes. -/
def isEnd : LexFault → Bool
  | unreadable why => why.isEnd
  | unexpectedCharacter _ => false
  | unknownWord _ => false
  | malformedNumber _ => false

end LexFault

/-- Why a token does not continue an expression. -/
inductive SyntaxFault where
  /-- Expressions nest too deep where the symbol begins another one. -/
  | tooManyLevels (found : Symbol)
  | unexpected (found : Symbol)
  | mismatch (wanted found : Symbol)
  | trailing (found : Symbol)
  deriving DecidableEq

namespace SyntaxFault

def message : SyntaxFault → String
  | tooManyLevels _ => "chunk has too many syntax levels"
  | unexpected found => "unexpected " ++ found.text
  | mismatch wanted found =>
    "expected " ++ quote wanted.name ++ " but consumed " ++ quote found.name
  | trailing found => "unexpected " ++ found.text ++ " after expression"

end SyntaxFault

/-- Why reading stops before there is a whole expression. -/
inductive Stop where
  /-- The text ends, and more of it could make it whole. -/
  | endOfInput
  /-- The text breaks off in a way that passes for its end. -/
  | brokenOff (why : ReadFailure)
  | lexical (position : Position) (fault : LexFault)
  | syntactic (position : Position) (fault : SyntaxFault)
  deriving DecidableEq

/-- Whether the text is at its end, as far as can be told. -/
def Stop.isEnd : Stop → Bool
  | endOfInput => true
  | brokenOff _ => true
  | lexical _ _ => false
  | syntactic _ _ => false

end TwoSorted
