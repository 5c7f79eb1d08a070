/-!
# Environments

An environment gives values to names, and a file can say what value it wants a
name to have. What a file says is added to an environment for the names that
have no value yet.
-/

namespace TwoSorted

/-- Names with their values. The first value of a name counts. -/
abbrev Bindings := List (String × String)

/-- The value of each name that has one. -/
abbrev Environment := String → Option String

namespace Environment

/-- The environment in which no name has a value. -/
def empty : Environment := fun _ => none

/-- The environment with a name given a value, or deprived of it. -/
def set (env : Environment) (name : String) (value : Option String) : Environment :=
  fun x => if x = name then value else env x

/-- The environment of the given names only. -/
def ofBindings (known : Bindings) : Environment :=
  fun x => known.lookup x

/-- The environment with the values of `more` for the names that have none. -/
def addMissing (env more : Environment) : Environment := fun x =>
  match env x with
  | some v => some v
  | none => more x

end Environment

end TwoSorted
