/-!
# Version

The version of the program and the line that introduces it.
-/

namespace TwoSorted

namespace Version

def major : Nat := 0

def minor : Nat := 1

def patch : Nat := 0

/-- The name and the version of the program. -/
def text : String := "Arith 0.1.0"

def copyright (year : String) : String :=
  "Copyright (C) " ++ year

def full (year : String) : String :=
  text ++ " " ++ copyright year

end Version

end TwoSorted
