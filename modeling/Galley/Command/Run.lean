import Galley.Command.Line
import Galley.Diagram.Renderer
import Galley.Files.Document
import Galley.Heading.Title
import Galley.EditSession
import Galley.Settings.Configuration
import Galley.Counts

/-!
# What the program does

* `Destination` — where a page goes, and `Destination.pagePath`, to which file;
* `CommandError` — why the program gives up, and `CommandError.message`, how it is said;
* `renderPage` — a document as a page, with its diagrams;
* `render` — renders a document once;
* `perform` — what the program does for some arguments.
-/

namespace Galley.Command

open Galley.Diagram (Renderer)
open Galley.Files (Host ReadError)
open Galley.Sanitizer (SanitizerError)
open Galley.Settings (Configuration ConfigurationError)

/-- Where a page goes. -/
inductive Destination where
  /-- To the standard output. -/
  | standard
  /-- Into a file. -/
  | file (path : String)
  /-- Into a directory, under the title of the document. -/
  | directory (path : String)
  deriving Repr, DecidableEq

/-- What a page is called. -/
def pageName (source : String) : String := Heading.titleOf source ++ ".html"

/-- The file that the page of a document goes into. -/
def Destination.pagePath (destination : Destination) (source : String) : Option String :=
  match destination with
  | standard => none
  | file path => some path
  | directory path => some (Files.join path (pageName source))

/-- Where the arguments want the page. -/
def destinationOf (arguments : RenderArguments) : Destination :=
  match arguments.output, arguments.directory with
  | some path, _ => .file path
  | none, some path => .directory path
  | none, none => .standard

/-- Why the program gives up. -/
inductive CommandError where
  /-- The configuration cannot be read. -/
  | config (error : ConfigurationError)
  /-- There is no such configuration. -/
  | noConfig (path : String)
  /-- The standard input cannot be read. -/
  | input
  /-- The document cannot be read. -/
  | document (path : String)
  /-- There is no document, and none is kept. -/
  | noInput
  /-- The latest document cannot be read. -/
  | buffer (error : ReadError)
  /-- No document was kept yet. -/
  | noBuffer (path : String)
  /-- The page cannot be written. -/
  | page (path : String)
  /-- The page cannot be made clean. -/
  | sanitizer (error : SanitizerError)
  deriving Repr, DecidableEq

/-- An error in words, if there are any. -/
def CommandError.message? : CommandError → Option String
  | config error => some error.message
  | noConfig path => some ("config file " ++ path ++ " not found")
  | input => some "failed to read stdin"
  | document path => some ("failed to read " ++ path)
  | noInput => some "no input given and no buffer_path configured"
  | buffer error => some error.message
  | noBuffer path => some ("no saved buffer at " ++ path)
  | page path => some ("failed to write " ++ path)
  | sanitizer _ => none

variable {m : Type → Type} [Monad m]

/-- The configuration in a named file, which must be there, or in the usual one, which need not. -/
def findConfiguration (host : Host m) : Option String → ExceptT CommandError m Configuration
  | some path => do
    match ← (Configuration.load host path : m _) with
    | .error error => throw (.config error)
    | .ok none => throw (.noConfig path)
    | .ok (some config) => return config
  | none => do
    let path ← (Configuration.usualPath host : m _)
    match ← (Configuration.load host path : m _) with
    | .error error => throw (.config error)
    | .ok config => return config.getD .usual

/-- The document that is asked for. -/
def readDocument (host : Host m) (config : Configuration) : Option String → ExceptT CommandError m String
  | some path => do
    if Files.isSame path "-" then
      match ← (Files.loadInput host : m _) with
      | .ok source => return source
      | .error _ => throw .input
    else
      match ← (Files.loadDocument host path : m _) with
      | .ok source => return source
      | .error _ => throw (.document path)
  | none => do
    match config.bufferPath with
    | none => throw .noInput
    | some path =>
      match ← (Files.loadBuffer host path : m _) with
      | .ok (some source) => return source
      | .ok none => throw (.noBuffer path)
      | .error error => throw (.buffer error)

/-- Keeps a document if it is to be kept. It does not matter if that fails. -/
def rememberDocument (host : Host m) (config : Configuration) (source : String) : m Unit := do
  match config.bufferPath with
  | none => return ()
  | some path =>
    let _ ← Files.saveBuffer host path source
    return ()

/-- Typesets the diagrams of some calls, the first of which has a number. -/
def typesetCalls (host : Host m) (renderer : Renderer) :
    (index : Nat) → List Call → EditSession → m EditSession
  | _, [], session => return session
  | index, call :: rest, session => do
    let outcome ← renderer.typeset host call.task.node call.task.theme
    typesetCalls host renderer (index + 1) rest ((session.finish? index outcome).getD session)

/-- A document as a page, with its diagrams. -/
def renderPage (host : Host m) (config : Configuration) (typesets : Bool) (source : String) :
    ExceptT CommandError m String := do
  let seed ← (host.randomSeed : m _)
  let options := config.toPageOptions
  let context := PageContext.ofOptions { options with naming := options.naming.withSeed seed }
  match (EditSession.ofContext context typesets).edit source with
  | .error error => throw (.sanitizer error)
  | .ok (_, session) =>
    let begun := session.beginAll
    let finished ← (typesetCalls host (.ofProgram config.renderer) 0 begun.calls begun : m _)
    return finished.markup

/-- Renders a document once. -/
def render (host : Host m) (config : Configuration) (arguments : RenderArguments) :
    ExceptT CommandError m Unit := do
  let source ← readDocument host config arguments.input
  if arguments.input.isSome then (rememberDocument host config source : m _)
  let html ← renderPage host config (!arguments.skipsDiagrams) source
  match (destinationOf arguments).pagePath source with
  | none => host.print html
  | some path =>
    match ← (Files.writePage host path html : m _) with
    | .ok _ => pure ()
    | .error _ => throw (.page path)
  if arguments.countsWords then host.printError ((Counts.ofText source).report ++ "\n")

/-- The version of the program. -/
def versionText : String := "markdown-livepreview 0.1.0\n"

/-- How the program is used. -/
def usageText : String :=
  "Usage: markdown-livepreview [--config <CONFIG>] <render|watch> [OPTIONS] [INPUT]\n"

/-- How the program ends. -/
inductive Exit where
  /-- All is done. -/
  | success
  /-- It gave up. -/
  | failure
  /-- Its arguments do not fit. -/
  | usage
  /-- It broke off. -/
  | abort
  deriving Repr, DecidableEq

/-- The number that tells the system how the program ends. -/
def Exit.code? : Exit → Option Nat
  | success => some 0
  | failure => some 1
  | usage => some 2
  | abort => none

/-- Does what is asked for, with a document that is rendered once for each look at it. -/
def act (host : Host m) (config : Option String) (action : Action) : ExceptT CommandError m Unit := do
  let config ← findConfiguration host config
  match action with
  | .render arguments => render host config arguments
  | .watch arguments =>
    render host config ⟨some arguments.input, some arguments.output, none, false, arguments.skipsDiagrams⟩

/-- What the program does for some arguments. -/
def perform (host : Host m) (arguments : List String) : m Exit := do
  match parse? arguments with
  | none =>
    host.printError usageText
    return .usage
  | some .version =>
    host.print versionText
    return .success
  | some .help =>
    host.print usageText
    return .success
  | some (.act config action) =>
    match ← (act host config action).run with
    | .ok _ => return .success
    | .error error =>
      match error.message? with
      | some message =>
        host.printError ("Error: " ++ message ++ "\n")
        return .failure
      | none => return .abort

end Galley.Command
