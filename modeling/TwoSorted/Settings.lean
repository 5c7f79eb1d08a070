import TwoSorted.Folder
import TwoSorted.Settings.Environment

/-!
# Settings

The settings of the program come from four variables of the environment, which
files can fill in: files are loaded in order, those that do not exist are
skipped, and a variable that has a value keeps it. The first file that cannot
be loaded ends the loading, and what was loaded before it stays.

How the bytes of a file give values to names is left open: `decode` stands for
that throughout.
-/

namespace TwoSorted

structure Settings where
  history : String
  prompt : String
  debug : Bool
  noColor : Bool
  deriving DecidableEq

namespace Settings

/-- The settings that come with a fault. -/
def zero : Settings := ⟨"", "", false, false⟩

def historyVariable : String := "ARITH_HISTORY"

def promptVariable : String := "ARITH_PROMPT"

def debugVariable : String := "ARITH_DEBUG"

def noColorVariable : String := "ARITH_NOCOLOR"

/-- The prompt when none is set. -/
def defaultPrompt : String := "> "

/-- Why a file cannot be loaded. -/
inductive LoadFault where
  | unopened (why : Refusal)
  | unreadable (reason : String)
  | malformed (message : String)
  deriving DecidableEq

/-- Why there are no settings. -/
inductive Fault where
  | load (path : String) (fault : LoadFault)
  | invalid (name value : String)
  deriving DecidableEq

def LoadFault.message (path : String) : LoadFault → String
  | unopened why => Opened.openMessage path why
  | unreadable reason => Opened.readMessage path reason
  | malformed message => message

def Fault.message : Fault → String
  | load path fault => "loading " ++ path ++ ": " ++ fault.message path
  | invalid name value => "invalid value " ++ quote value ++ " for " ++ name

/-- The truth value that a word stands for. -/
def bool? (s : String) : Option Bool :=
  if s ∈ ["1", "t", "T", "TRUE", "true", "True"] then some true
  else if s ∈ ["0", "f", "F", "FALSE", "false", "False"] then some false
  else none

/-- The truth value of a variable; without a value, or with the empty one, it
is false. -/
def flag (env : Environment) (name : String) : Except Fault Bool :=
  let value := (env name).getD ""
  if value.isEmpty then .ok false
  else match bool? value with
    | some b => .ok b
    | none => .error (.invalid name value)

/-- The settings that an environment gives. -/
def ofEnvironment (env : Environment) : Except Fault Settings := do
  let prompt := (env promptVariable).getD ""
  let debug ← flag env debugVariable
  let noColor ← flag env noColorVariable
  .ok {
    history := (env historyVariable).getD ""
    prompt := if prompt.isEmpty then defaultPrompt else prompt
    debug := debug
    noColor := noColor }

section

variable (decode : List UInt8 → Except String Bindings)

/-- The environment with what is found at a path loaded into it. -/
def loadFile (env : Environment) : Opened → Except LoadFault Environment
  | .file bytes =>
    match decode bytes with
    | .ok known => .ok (env.addMissing (.ofBindings known))
    | .error message => .error (.malformed message)
  | .directory => .error (.unreadable Opened.isDirectory)
  | .broken _ reason => .error (.unreadable reason)
  | .refused why => .error (.unopened why)

/-- Loads the files in order; `find` gives nothing for a path at which there is
nothing. The environment is the one reached, and if a file cannot be loaded the
fault comes with it. -/
def loadFiles (find : String → Option Opened) (env : Environment) :
    List String → Option Fault × Environment
  | [] => (none, env)
  | path :: rest =>
    match find path with
    | none => loadFiles find env rest
    | some found =>
      match loadFile decode env found with
      | .ok env => loadFiles find env rest
      | .error fault => (some (.load path fault), env)

/-- What the loading of settings comes to. -/
structure Loaded where
  settings : Settings
  fault : Option Fault
  environment : Environment

/-- Loads the files, and takes the settings from the environment then. -/
def load (find : String → Option Opened) (env : Environment) (paths : List String) : Loaded :=
  match loadFiles decode find env paths with
  | (some fault, env) => ⟨zero, some fault, env⟩
  | (none, env) =>
    match ofEnvironment env with
    | .ok settings => ⟨settings, none, env⟩
    | .error fault => ⟨zero, some fault, env⟩

end

end Settings

end TwoSorted
