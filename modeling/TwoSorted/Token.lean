import TwoSorted.Number.Text
import TwoSorted.Position

/-!
# Tokens

A token is a symbol of the language at the position of its first character.
Where a text ends there is one more symbol, `endOfText`, which no characters
spell.
-/

namespace TwoSorted

/-- The symbols that expressions are made of. -/
inductive Symbol where
  | plus
  | question
  | colon
  | openParen
  | closeParen
  | bool (b : Bool)
  | number (v : Binary64)
  | endOfText
  deriving DecidableEq

namespace Symbol

/-- The name of the symbol's kind; all numbers share one. -/
def name : Symbol → String
  | plus => "+"
  | question => "?"
  | colon => ":"
  | openParen => "("
  | closeParen => ")"
  | bool true => "true"
  | bool false => "false"
  | number _ => "number"
  | endOfText => "<EOS>"

/-- The symbol as text: a number by its value, any other by its name. -/
def text : Symbol → String
  | number v => v.text
  | s => s.name

/-- The symbol spelled by one character of punctuation. -/
def ofChar? : Char → Option Symbol
  | '+' => some plus
  | '?' => some question
  | ':' => some colon
  | '(' => some openParen
  | ')' => some closeParen
  | _ => none

/-- The symbol spelled by a word. -/
def ofWord? (w : List Char) : Option Symbol :=
  if w = ['t', 'r', 'u', 'e'] then some (bool true)
  else if w = ['f', 'a', 'l', 's', 'e'] then some (bool false)
  else none

end Symbol

/-- A symbol and where it begins. -/
structure Token where
  symbol : Symbol
  position : Position
  deriving DecidableEq

end TwoSorted
