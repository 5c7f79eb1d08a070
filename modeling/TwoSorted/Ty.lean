import TwoSorted.Text.Blank
import TwoSorted.Text.LowerCase

/-!
# Types

There are two types, of truth values and of numbers. A type has a name, which
is looked up without regard to case and to blanks around it, and a code, under
which it is exchanged as a number; codes other than those two are invalid.
-/

namespace TwoSorted

inductive Ty where
  | boolean
  | number
  deriving DecidableEq

namespace Ty

def name : Ty → String
  | boolean => "Boolean"
  | number => "Number"

/-- The name to show where there may be no type. -/
def nameOr : Option Ty → String
  | some t => t.name
  | none => "invalid"

def ofCode? : Nat → Option Ty
  | 1 => some boolean
  | 2 => some number
  | _ => none

/-- The name of a type in lower case. -/
def key (t : Ty) : List Char :=
  t.name.toList.map lowerCase

/-- The type with the given name. -/
def lookup? (name : List Piece) : Option Ty :=
  let wanted := (trim name).map fun p => lowerCase p.read
  [boolean, number].find? fun t => t.key == wanted

end Ty

end TwoSorted
