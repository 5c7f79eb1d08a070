import Std.Time
import TwoSorted.Command.Run
import TwoSorted.Settings.EnvFile

/-!
# The program

Gathers what the program needs to know, runs it, and holds the session that it
may leave to be held. Nothing is decided here.
-/

namespace TwoSorted

namespace Program

/-- Reads a stream to its end. -/
partial def readAll (input : IO.FS.Stream) (soFar : ByteArray) : IO ByteArray := do
  let more ← input.read 4096
  if more.isEmpty then return soFar else readAll input (soFar ++ more)

/-- Opens a path. -/
def openPath (path : String) : IO Opened := do
  try
    return .file (← IO.FS.readBinFile path).toList
  catch
    | .inappropriateType none _ _ => return .directory
    | .inappropriateType (some _) _ _ => return .refused .notDirectory
    | .invalidArgument _ _ _ =>
      return .refused (if path.contains '\x00' then .invalidPath else .nameTooLong)
    | .noFileOrDirectory _ _ _ => return .refused .notFound
    | other => return .refused (.other (toString other))

/-- Shows a text in the color that terminals give this number. -/
def color (number : Fin 10) : Style :=
  ⟨"\x1b[3" ++ number.val.repr ++ "m", "\x1b[0m", by revert number; decide, by decide⟩

/-- The variables of the environment that the settings look at. -/
def readEnvironment : IO Environment := do
  let names := [Settings.historyVariable, Settings.promptVariable,
    Settings.debugVariable, Settings.noColorVariable]
  let vars ← names.mapM fun name => do return (name, ← IO.getEnv name)
  return vars.foldl (fun env (name, value) => env.set name value) Environment.empty

/-- Writes what a step of a session has to say. -/
def write (showLog : Bool) (time : String) (o : Output) : IO Unit := do
  if showLog then
    for r in o.log do
      (← IO.getStderr).putStr (r.line time)
  (← IO.getStdout).putStr o.out
  (← IO.getStderr).putStr o.err

/-- Reads a line. -/
def readEntry (input : IO.FS.Stream) : IO Session.Entry := do
  try
    let line ← input.getLine
    if line.isEmpty then return .endOfInput
    let bytes := line.toUTF8.toList
    return .line (if bytes.getLast? = some 0x0A then bytes.dropLast else bytes)
  catch fault => return .failure (toString fault)

/-- Holds a session until it has ended. -/
partial def converse (d : Session.Dialogue) (showLog : Bool) (time : String)
    (input output : IO.FS.Stream) : IO Unit := do
  output.putStr d.shown
  output.flush
  let d := { d with written := .none }.take (← readEntry input)
  write showLog time d.written
  if !d.ended then converse d showLog time input output

end Program

end TwoSorted

open TwoSorted in
def main (words : List String) : IO UInt32 := do
  let input ← IO.getStdin
  let output ← IO.getStdout
  let now ← Std.Time.PlainDateTime.now
  let text ← if ← input.isTty then pure none else do
    pure (some (← Program.readAll input .empty).toList)
  let paths := match Options.ofWords words with
    | .ok (_, arguments) => Command.settingsFile :: arguments.take 1
    | .error _ => []
  let found ← paths.mapM fun path => do return (path, ← Program.openPath path)
  let time := now.toDateTimeString
  let terminal ← output.isTty
  let outcome := Command.run {
    words := words
    environment := ← Program.readEnvironment
    find := fun path => (found.lookup path).getD (.refused .notFound)
    decode := EnvFile.decode
    input := text
    typeStyle := if terminal then Program.color 2 else .plain
    failureStyle := if terminal then Program.color 1 else .plain
    year := toString (now.year : Int)
    time := time }
  Program.write false time ⟨outcome.transcript.out, outcome.transcript.err, []⟩
  match outcome.session with
  | some (session, showLog) => Program.converse session.opened showLog time input output
  | none => pure ()
  return outcome.status.toUInt32
