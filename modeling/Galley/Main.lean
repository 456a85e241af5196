import Galley.Command.Run
import Galley.Machine

/-!
# The program

The real system as a host. Renderers that are scripts are run on a machine in memory; other programs are
not found.

* `FileError.ofSystem` — an error of the system as one of files;
* `systemHost` — the system as a host;
* `main` — the program.
-/

namespace Galley

open Galley.Files (FileError Host Invocation Outcome)

/-- An error of the system as one of files. -/
def FileError.ofSystem (error : IO.Error) : FileError :=
  match error with
  | .noFileOrDirectory .. => .notFound
  | .permissionDenied .. => .permissionDenied
  | .alreadyExists .. => .exists
  | .inappropriateType _ 20 _ => .notDirectory
  | .inappropriateType _ 21 _ => .isDirectory
  | .invalidArgument _ 36 _ => .nameTooLong
  | other => .system (toString other)

/-- Does something with files. -/
def attempt {α : Type} (action : IO α) : IO (Except FileError α) := do
  match ← action.toBaseIO with
  | .ok found => return .ok found
  | .error error => return .error (FileError.ofSystem error)

/-- The content of a file. -/
def readFile (path : String) : IO (Except FileError ByteArray) :=
  if path.toList.contains '\x00' then return .error .nullInName
  else attempt (IO.FS.readBinFile path)

/-- Whether there is something at a path. -/
def isThere (path : String) : IO Bool := do
  match ← attempt (IO.FS.Handle.mk path .read) with
  | .ok _ => return true
  | .error error => return error == .permissionDenied

/-- Whether there is a directory at a path: a file in it can be looked for. -/
def isDirectoryThere (path : String) : IO Bool := isThere (path ++ "/.")

/-- Runs a script. -/
def runScript (invocation : Invocation) : IO (Except FileError Outcome) := do
  if invocation.program.toList.contains Files.separator then
    match ← readFile invocation.program with
    | .error error => return .error error
    | .ok content =>
      let machine := Machine.ofEnvironment []
      let here := { machine with tree := machine.tree.put "script" content true }
      return (here.launch { invocation with program := "./script" }).map Prod.fst
  else return (Machine.ofEnvironment []).launch invocation |>.map Prod.fst

/-- The system as a host. -/
def systemHost : Host IO where
  environment := fun name => IO.getEnv name
  exists? := isThere
  isDirectory := isDirectoryThere
  read := readFile
  write path content :=
    if path.toList.contains '\x00' then return .error .nullInName
    else attempt (IO.FS.writeBinFile path content)
  makeDirectory path := attempt (IO.FS.createDir path)
  input := do (← IO.getStdin).readBinToEnd
  print text := do (← IO.getStdout).putStr text
  printError text := do (← IO.getStderr).putStr text
  run := runScript
  randomSeed := do
    let bytes ← IO.getRandomBytes 8
    return bytes.foldl (fun n b => n * 256 + b.toUInt64) 0

end Galley

/-- The program. It ends with the number that tells how it went. -/
def main (arguments : List String) : IO UInt32 := do
  let exit ← Galley.Command.perform Galley.systemHost arguments
  return ((exit.code?.getD 134).toUInt32)
