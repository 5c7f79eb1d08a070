import TwoSorted.Command.Options
import TwoSorted.Session
import TwoSorted.Version

/-!
# Running a command line

The program checks one text: its standard input if that is no terminal, else
the expression given as an option, else the script named by the first argument.
When there is none of these, or when asked to, it opens an interactive session
afterwards. Types go to the standard output and everything else to the
standard error. Any fault ends the program with status one.
-/

namespace TwoSorted

namespace Command

/-- All that the program gets from its surroundings. -/
structure Context where
  words : List String
  environment : Environment
  find : String → Opened
  /-- How the contents of a settings file give values to names. -/
  decode : List UInt8 → Except String Bindings
  /-- The standard input, unless it is a terminal. -/
  input : Option (List UInt8)
  /-- How types and messages are shown in a session, if colors are wanted. -/
  typeStyle : Style
  failureStyle : Style
  year : String
  time : String

/-- What the program has written, and its exit status if it has ended. -/
structure Transcript where
  out : String
  err : String
  status : Option Nat
  deriving DecidableEq

namespace Transcript

def empty : Transcript := ⟨"", "", none⟩

/-- A message on the standard error. -/
def say (message : String) : Transcript :=
  ⟨"", message, none⟩

/-- A message that ends the program. -/
def fail (message : String) : Transcript :=
  ⟨"", message ++ "\n", some 1⟩

/-- Goes on with `b` unless `a` has ended. -/
def andThen (a b : Transcript) : Transcript :=
  match a.status with
  | some _ => a
  | none => ⟨a.out ++ b.out, a.err ++ b.err, b.status⟩

end Transcript

/-- The record of the text that was read. -/
def readRecord (file : String) (e : Expr) : LogRecord :=
  ⟨"parsed expression", [("file", file), ("expr", e.text)]⟩

/-- The type of an expression against the one that is expected, if one is. -/
def report (expected : Option Ty) (t : Ty) : Transcript :=
  match expected with
  | some wanted =>
    if t = wanted then ⟨t.name ++ "\n", "", none⟩
    else ⟨t.name ++ "\n",
      "expected type " ++ wanted.name ++ " but found " ++ t.name ++ "\n", some 1⟩
  | none => ⟨t.name ++ "\n", "", none⟩

variable [Conversions]

/-- Checks a labelled text. -/
def checkText (parseOnly debug : Bool) (time : String) (expected : Option Ty)
    (file : String) (bytes : List UInt8) : Transcript :=
  match parseAs file (.ofBytes bytes) with
  | .error failure =>
    .fail (if failure.isIncomplete then file ++ ": unexpected end of input"
      else failure.message)
  | .ok e =>
    let logged := if debug then (readRecord file e).line time else ""
    (Transcript.say logged).andThen <|
      if parseOnly then ⟨e.text ++ "\n", "", none⟩
      else match checkAs file e with
        | .error failure => .fail failure.message
        | .ok t => report expected t

/-- The text to check, under its label. -/
inductive Text where
  | none
  | unreadable (message : String)
  | labelled (file : String) (bytes : List UInt8)

/-- Finds the text to check. -/
def findText (c : Context) (o : Options) (arguments : List String) : Text :=
  match c.input with
  | some bytes => .labelled "<stdin>" bytes
  | none =>
    if !o.expression.isEmpty then .labelled "<string>" o.expression.toUTF8.toList
    else match arguments with
      | [] => .none
      | path :: _ =>
        match c.find path with
        | .file bytes => .labelled path bytes
        | .directory => .unreadable (Opened.readMessage path Opened.isDirectory)
        | .broken _ reason => .unreadable (Opened.readMessage path reason)
        | .refused why => .unreadable (Opened.openMessage path why)

/-- The type named by the option, if it is given. -/
def expectedType (name : String) : Except String (Option Ty) :=
  if name.isEmpty then .ok none
  else match Ty.lookup? (name.toList.map .char) with
    | some t => .ok (some t)
    | none => .error ("unknown type " ++ quote name)

/-- The line with the version. -/
def versionLine (year : String) : String :=
  Version.full year ++ "\n"

/-- What is said before a session. -/
def greeting (year : String) : String :=
  versionLine year ++ "Press ctrl-c to quit or clear current buffer.\n"

/-- What the program leaves to be done after its transcript. -/
structure Outcome where
  transcript : Transcript
  /-- The session to hold, and whether its log is shown. -/
  session : Option (Session × Bool)

namespace Outcome

/-- The exit status. -/
def status (o : Outcome) : Nat :=
  o.transcript.status.getD 0

end Outcome

/-- Runs the program with the options and settings read. -/
def runWith (c : Context) (o : Options) (arguments : List String)
    (settings : Settings) : Outcome :=
  let debug := settings.debug || o.debug
  match expectedType o.expected with
  | .error message => ⟨.fail message, none⟩
  | .ok expected =>
    let introduced :=
      if o.showVersion then Transcript.say (versionLine c.year) else .empty
    let (checked, found) := match findText c o arguments with
      | .none => (Transcript.empty, false)
      | .unreadable message => (.fail message, true)
      | .labelled file bytes =>
        (checkText o.parseOnly debug c.time expected file bytes, true)
    let done := introduced.andThen checked
    if done.status.isNone && ((!found && !o.showVersion) || o.interactive) then
      let session :=
        if settings.noColor then Session.start settings.prompt .plain .plain
        else Session.start settings.prompt c.typeStyle c.failureStyle
      ⟨done.andThen (.say (greeting c.year)), some (session, debug)⟩
    else ⟨done, none⟩

/-- The file that settings are loaded from. -/
def settingsFile : String := ".env"

/-- Runs the program up to the session that it may open. -/
def run (c : Context) : Outcome :=
  match Options.ofWords c.words with
  | .error fault =>
    let message := (fault.message?.map (· ++ "\n")).getD ""
    ⟨⟨"", message ++ versionLine c.year ++ Options.usage, some fault.status⟩, none⟩
  | .ok (o, arguments) =>
    let loaded := Settings.load c.decode (fun path => (c.find path).present?)
      c.environment [settingsFile]
    match loaded.fault with
    | some fault => ⟨.fail fault.message, none⟩
    | none => runWith c o arguments loaded.settings

end Command

end TwoSorted
