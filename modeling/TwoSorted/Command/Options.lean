import TwoSorted.Settings

/-!
# Command-line options

An option is a word that begins with one hyphen or two. A switch is on when it
is named, or takes a truth value after an equals sign; other options take their
value there or from the next word. The options end at the first word that is
none, or after two hyphens alone.
-/

namespace TwoSorted

structure Options where
  parseOnly : Bool
  showVersion : Bool
  interactive : Bool
  debug : Bool
  expression : String
  expected : String
  deriving DecidableEq

namespace Options

/-- The options of an empty command line. -/
def default : Options :=
  ⟨false, false, false, false, "", ""⟩

/-- Why the command line is not run. -/
inductive Fault where
  /-- The usage was asked for. -/
  | help
  | badSyntax (word : String)
  | undefined (name : String)
  | needsValue (name : String)
  | badSwitch (name value : String)
  deriving DecidableEq

/-- What is said before the usage. -/
def Fault.message? : Fault → Option String
  | help => none
  | badSyntax word => some ("bad flag syntax: " ++ word)
  | undefined name => some ("flag provided but not defined: -" ++ name)
  | needsValue name => some ("flag needs an argument: -" ++ name)
  | badSwitch name value =>
    some ("invalid boolean value " ++ quote value ++ " for -" ++ name ++ ": parse error")

/-- The exit status after the fault. -/
def Fault.status : Fault → Nat
  | help => 0
  | _ => 2

/-- How an option changes the options. -/
inductive Setter where
  | switch (set : Options → Bool → Options)
  | text (set : Options → String → Options)

/-- The option of the given name. -/
def setter? (name : String) : Option Setter :=
  match name with
  | "p" => some (.switch fun o b => { o with parseOnly := b })
  | "v" => some (.switch fun o b => { o with showVersion := b })
  | "i" => some (.switch fun o b => { o with interactive := b })
  | "debug" => some (.switch fun o b => { o with debug := b })
  | "e" => some (.text fun o s => { o with expression := s })
  | "expect" => some (.text fun o s => { o with expected := s })
  | _ => none

/-- A word on the command line. -/
inductive Word where
  | argument
  | endOfOptions
  | malformed
  | option (name : String) (value? : Option String)

/-- Splits an option at its equals sign. -/
def splitOption (body : List Char) : Word :=
  match body with
  | [] => .malformed
  | '-' :: _ => .malformed
  | '=' :: _ => .malformed
  | body =>
    let name := String.ofList (body.takeWhile (· ≠ '='))
    match body.dropWhile (· ≠ '=') with
    | [] => .option name none
    | _ :: value => .option name (some (String.ofList value))

/-- What kind of word it is. -/
def classify (word : String) : Word :=
  match word.toList with
  | ['-', '-'] => .endOfOptions
  | '-' :: '-' :: body => splitOption body
  | '-' :: c :: body => splitOption (c :: body)
  | _ => .argument

/-- Reads the options from the front of the command line. The words after them
are the arguments. -/
def read (o : Options) : List String → Except Fault (Options × List String)
  | [] => .ok (o, [])
  | word :: rest =>
    match classify word with
    | .argument => .ok (o, word :: rest)
    | .endOfOptions => .ok (o, rest)
    | .malformed => .error (.badSyntax word)
    | .option name value? =>
      match setter? name, value?, rest with
      | none, _, _ =>
        if name = "help" ∨ name = "h" then .error .help else .error (.undefined name)
      | some (.switch set), none, rest => read (set o true) rest
      | some (.switch set), some value, rest =>
        match Settings.bool? value with
        | some b => read (set o b) rest
        | none => .error (.badSwitch name value)
      | some (.text set), some value, rest => read (set o value) rest
      | some (.text set), none, value :: rest => read (set o value) rest
      | some (.text _), none, [] => .error (.needsValue name)

/-- The options of a command line and its arguments. -/
def ofWords (words : List String) : Except Fault (Options × List String) :=
  read default words

/-- The usage. -/
def usage : String :=
  "\nUsage: arith [options] [script]\n" ++
  "  -debug\n    \tlog debug information to stderr\n" ++
  "  -e string\n    \tcheck expression 'expr'\n" ++
  "  -expect string\n    \texit with an error unless the expression has this type\n" ++
  "  -i\tenter interactive mode after checking a script\n" ++
  "  -p\tparse only, print the expression tree\n" ++
  "  -v\tshow version information\n"

end Options

end TwoSorted
