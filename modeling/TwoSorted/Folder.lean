import TwoSorted.Verdict

/-!
# Files

What becomes of opening a path: the contents of a file, a directory, a file that
cannot be read to its end, or a refusal. A directory can be opened, and only
reading from it fails.

A `Folder` is a snapshot of the working directory and answers what opening a
path there would. Paths are resolved step by step: an empty step or a dot stays
where it is, two dots go up, and nothing can be found below a file. Of what lies
outside the folder nothing is known but that it holds no files. Names and whole
paths have a greatest length in bytes; a name that is too long is refused where
it is looked up, a path before its first step.
-/

namespace TwoSorted

/-- Why a path cannot be opened. -/
inductive Refusal where
  | notFound
  | notDirectory
  | invalidPath
  | nameTooLong
  | other (reason : String)
  deriving DecidableEq

namespace Refusal

def message : Refusal → String
  | notFound => "no such file or directory"
  | notDirectory => "not a directory"
  | invalidPath => "invalid argument"
  | nameTooLong => "file name too long"
  | other reason => reason

/-- The most bytes that a name can have. -/
def maxName : Nat := 255

/-- The most bytes that a path can have. -/
def maxPath : Nat := 4095

/-- Why a name is refused that nothing in its directory bears. -/
def ofName (name : String) : Refusal :=
  if name.utf8ByteSize ≤ maxName then notFound else nameTooLong

end Refusal

/-- What is found at a path; of a `broken` file only the given bytes can be read. -/
inductive Opened where
  | file (bytes : List UInt8)
  | directory
  | broken (bytes : List UInt8) (reason : String)
  | refused (why : Refusal)
  deriving DecidableEq

namespace Opened

/-- What is said when the path cannot be opened. -/
def openMessage (path : String) (why : Refusal) : String :=
  "open " ++ path ++ ": " ++ why.message

/-- What is said when what is at the path cannot be read. -/
def readMessage (path reason : String) : String :=
  "read " ++ path ++ ": " ++ reason

/-- Why a directory cannot be read. -/
def isDirectory : String := "is a directory"

/-- What is found, unless nothing is there. -/
def present? : Opened → Option Opened
  | refused .notFound => none
  | found => some found

end Opened

/-- The files and the named directories of a working directory. -/
structure Folder where
  entries : List (List String × Option (List UInt8))

namespace Folder

/-- The folder with the given files. A name that ends in a slash stands for an
empty directory; directories on the way to a file are there as well. -/
def ofNames (files : List (String × List UInt8)) : Folder where
  entries := files.map fun (name, bytes) =>
    let steps := name.splitOn "/"
    if steps.getLast? = some "" then (steps.dropLast, none)
    else (steps, some bytes)

/-- What is at the end of the steps down from the folder, if anything is. -/
def find? (folder : Folder) (steps : List String) : Option Opened :=
  match folder.entries.lookup steps with
  | some (some bytes) => some (.file bytes)
  | some none => some .directory
  | none =>
    if steps.isEmpty || folder.entries.any fun e => steps.isPrefixOf e.1 then
      some .directory
    else none

/-- Follows the steps down from the directory `here`, or from somewhere outside
the folder if there is no `here`. -/
def walk (folder : Folder) : (here : Option (List String)) → List String → Opened
  | _, [] => .directory
  | here, "" :: rest => walk folder here rest
  | here, "." :: rest => walk folder here rest
  | none, ".." :: rest => walk folder none rest
  | none, step :: _ => .refused (.ofName step)
  | some here, ".." :: rest =>
    walk folder (if here.isEmpty then none else some here.dropLast) rest
  | some here, step :: rest =>
    match folder.find? (here ++ [step]) with
    | some .directory => walk folder (some (here ++ [step])) rest
    | some (.file bytes) =>
      if rest.isEmpty then .file bytes else .refused .notDirectory
    | some found => found
    | none => .refused (.ofName step)

/-- What opening the path in this folder gives. -/
def openAt (folder : Folder) (path : String) : Opened :=
  if path.isEmpty then .refused .notFound
  else if path.contains '\x00' then .refused .invalidPath
  else if Refusal.maxPath < path.utf8ByteSize then .refused .nameTooLong
  else if path.front = '/' then walk folder none (path.splitOn "/")
  else walk folder (some []) (path.splitOn "/")

end Folder

/-- Why a file gives no answer. -/
inductive FileFailure where
  | unopened (path : String) (why : Refusal)
  | failed (failure : Failure)

namespace FileFailure

def message : FileFailure → String
  | unopened path why => Opened.openMessage path why
  | failed failure => failure.message

end FileFailure

end TwoSorted
