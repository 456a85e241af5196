import Galley.Files.Host

/-!
# Documents in files

* `ReadError` — why a document cannot be read or written, and `ReadError.message`, how it is said;
* `loadDocument`, `loadInput` — a document from a file or from the standard input;
* `writePage` — a page into a file;
* `loadBuffer`, `saveBuffer` — the latest document, kept between sessions.
-/

namespace Galley.Files

/-- Why a document cannot be read or written. -/
inductive ReadError where
  /-- There is no such file. -/
  | notFound (path : String)
  /-- Something else went wrong. -/
  | file (error : FileError)
  deriving Repr, DecidableEq

/-- An error in words. -/
def ReadError.message : ReadError → String
  | notFound path => "File not found: " ++ path
  | file error => "IO error: " ++ error.message

variable {m : Type → Type} [Monad m]

/-- A document in a file. -/
def loadDocument (host : Host m) (path : String) : m (Except ReadError String) := do
  if ← host.exists? path then
    return (← host.readText path).mapError .file
  else return .error (.notFound path)

/-- A document in a stream. -/
def readStream (bytes : ByteArray) : Except ReadError String := (textOf bytes).mapError .file

/-- A document from the standard input. -/
def loadInput (host : Host m) : m (Except ReadError String) := do
  return readStream (← host.input)

/-- Writes a page into a file. The directories around it are made first. -/
def writePage (host : Host m) (path html : String) : m (Except ReadError Unit) := do
  return (← host.writeText path html).mapError .file

/-- The document that was saved last, if there is one. -/
def loadBuffer (host : Host m) (path : String) : m (Except ReadError (Option String)) := do
  match ← loadDocument host path with
  | .ok text => return .ok (some text)
  | .error (.notFound _) => return .ok none
  | .error error => return .error error

/-- Saves a document in the place of the one before. -/
def saveBuffer (host : Host m) (path text : String) : m (Except ReadError Unit) :=
  writePage host path text

end Galley.Files
