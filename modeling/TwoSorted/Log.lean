import TwoSorted.Text.Blank
import TwoSorted.Text.Quoted

/-!
# Log records

A record is a message with named attributes. Written out it is one line of
`name=value` fields, in which a value is quoted when it is empty or when a
character in it would blur where it ends.
-/

namespace TwoSorted

/-- A record for those who look for the reasons of an answer. -/
structure LogRecord where
  message : String
  attributes : List (String × String)
  deriving DecidableEq

namespace LogRecord

/-- The level of all records. -/
def level : String := "DEBUG"

/-- Whether a value with this character has to be quoted. -/
def blurs (c : Char) : Bool :=
  if c.toNat < 0x80 then c.toNat ≤ 0x20 || c == '=' || c == '"'
  else c == Piece.replacement || isBlank c || !isPrintable c

/-- A value as it stands in a field. -/
def value (s : String) : String :=
  if s.isEmpty || s.toList.any blurs then quote s else s

/-- The record as a line, with the time given as text. -/
def line (time : String) (r : LogRecord) : String :=
  let fields := ("time", time) :: ("level", level) :: ("msg", r.message) :: r.attributes
  " ".intercalate (fields.map fun (name, v) => name ++ "=" ++ value v) ++ "\n"

end LogRecord

end TwoSorted
