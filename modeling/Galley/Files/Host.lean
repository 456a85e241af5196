import Galley.Files.Error
import Galley.Files.Path
import Galley.Text.Utf8

/-!
# The host

What the program asks of the system that it runs on, whatever that is. Programs over a host can be run
on a real system, and on one in memory to be tried out and reasoned about.

* `Ending`, `Finished`, `Invocation` — programs that are run;
* `Host` — the questions;
* `Host.readText` — a file as text;
* `Host.makeDirectories` — a directory and all around it;
* `Host.writeText` — a file, with the directories around it.
-/

namespace Galley.Files

/-- How a program ended. -/
inductive Ending where
  /-- By itself, with a code. -/
  | code (number : Nat)
  /-- By a signal. -/
  | signal (number : Nat)
  deriving Repr, DecidableEq

/-- What a program left behind. -/
structure Finished where
  /-- How it ended. -/
  ending : Ending
  /-- What it wrote. -/
  output : ByteArray
  /-- What it wrote about errors. -/
  errors : ByteArray

/-- What became of a program. -/
inductive Outcome where
  /-- It ended in time. -/
  | finished (result : Finished)
  /-- It did not read all that was written to it. -/
  | unread
  /-- It took too long. -/
  | late

/-- A program to be run. -/
structure Invocation where
  /-- The program: a path, or a name to be looked for where programs are. -/
  program : String
  /-- Its arguments. -/
  arguments : List String
  /-- What it can read. -/
  input : ByteArray
  /-- How many milliseconds it may take, if there is a limit. -/
  limit : Option Nat

/-- What the program asks of the system that it runs on. -/
structure Host (m : Type → Type) where
  /-- The value of a variable of the environment. -/
  environment : String → m (Option String)
  /-- Whether there is something at a path. -/
  exists? : String → m Bool
  /-- Whether there is a directory at a path. -/
  isDirectory : String → m Bool
  /-- The content of a file. -/
  read : String → m (Except FileError ByteArray)
  /-- Replaces the content of a file, or makes one. -/
  write : String → ByteArray → m (Except FileError Unit)
  /-- Makes one directory. -/
  makeDirectory : String → m (Except FileError Unit)
  /-- All that can be read from the standard input. -/
  input : m ByteArray
  /-- Writes text to the standard output. -/
  print : String → m Unit
  /-- Writes text to the standard output for errors. -/
  printError : String → m Unit
  /-- Runs a program. -/
  run : Invocation → m (Except FileError Outcome)
  /-- A number that nobody can foresee. -/
  randomSeed : m UInt64

/-- Bytes as text. -/
def textOf (bytes : ByteArray) : Except FileError String :=
  match Text.Utf8.decode? bytes with
  | some text => .ok text
  | none => .error .notText

namespace Host

variable {m : Type → Type} [Monad m]

/-- A file as text. -/
def readText (host : Host m) (path : String) : m (Except FileError String) := do
  return (← host.read path).bind textOf

/-- Makes a directory unless there is one. -/
def ensureDirectory (host : Host m) (path : String) : m (Except FileError Unit) := do
  match ← host.makeDirectory path with
  | .ok _ => return .ok ()
  | .error error => if ← host.isDirectory path then return .ok () else return .error error

/-- Makes a directory and all those around it. `fuel` bounds how many there are. -/
def makeDirectoriesWithin (host : Host m) : (fuel : Nat) → String → m (Except FileError Unit)
  | 0, _ => return .error .nameTooLong
  | fuel + 1, path => do
    if path.isEmpty then return .ok ()
    match ← host.ensureDirectory path with
    | .error .notFound =>
      match parent? path with
      | none => return .error .notFound
      | some parent =>
        match ← makeDirectoriesWithin host fuel parent with
        | .error error => return .error error
        | .ok _ => host.ensureDirectory path
    | other => return other

/-- Makes a directory and all those around it. -/
def makeDirectories (host : Host m) (path : String) : m (Except FileError Unit) :=
  host.makeDirectoriesWithin (path.length + 1) path

/-- Writes a file. The directories around it are made first. -/
def writeText (host : Host m) (path text : String) : m (Except FileError Unit) := do
  match parent? path with
  | none => host.write path text.toUTF8
  | some parent =>
    match ← host.makeDirectories parent with
    | .error error => return .error error
    | .ok _ => host.write path text.toUTF8

end Host

end Galley.Files
