import Galley.Page
import Galley.Settings.Expansion
import Galley.Toml.Writer

/-!
# The configuration

* `Configuration` — what is configured, and `Configuration.usual`, what holds without a file;
* `Configuration.ofValue` — reads it from settings;
* `Configuration.toText` — writes it;
* `ConfigurationError` — why it cannot be read, and `ConfigurationError.message`, how it is said;
* `Configuration.parse`, `Configuration.load`, `Configuration.save` — the configuration in a file;
* `Configuration.toPageOptions` — what it means for pages.
-/

namespace Galley.Settings

open Galley.Files (FileError Host)

/-- What is configured. -/
structure Configuration where
  /-- Whether pages are dark. -/
  darkMode : Bool
  /-- The language of the code blocks that are diagrams. -/
  diagramLanguage : String
  /-- Whether diagrams are numbered. -/
  numbersDiagrams : Bool
  /-- The program that makes pictures of diagrams. -/
  renderer : String
  /-- Where the latest document is kept between sessions. -/
  bufferPath : Option String
  /-- Elements to allow beyond the usual ones. -/
  extraTags : List String
  /-- Attributes to allow beyond the usual ones, by the element. -/
  extraAttributes : List (String × List String)
  deriving Repr, DecidableEq

namespace Configuration

/-- What holds without a file. -/
def usual : Configuration := ⟨false, usualDiagramLanguage, false, "mmdc", none, [], []⟩

/-- The names of the fields. -/
def fieldNames : List String :=
  ["dark_mode", "diagram_language", "sequential_diagram_ids", "mermaid_cli", "buffer_path", "extra_tags",
   "extra_attributes"]

/-- A configuration as it is written in settings. What is not given is as usual. -/
def ofValue (value : Value) : Decoded Configuration := do
  let fields ← value.fields fieldNames
  return {
    darkMode := ← fields.read "dark_mode" Value.boolean? usual.darkMode,
    diagramLanguage := ← fields.read "diagram_language" Value.text? usual.diagramLanguage,
    numbersDiagrams := ← fields.read "sequential_diagram_ids" Value.boolean? usual.numbersDiagrams,
    renderer := ← fields.read "mermaid_cli" Value.text? usual.renderer,
    bufferPath := ← fields.read "buffer_path" Value.optionalText? usual.bufferPath,
    extraTags := ← fields.read "extra_tags" Value.texts? usual.extraTags,
    extraAttributes := ← fields.read "extra_attributes" Value.textLists? usual.extraAttributes }

/-- A truth value as it is written. -/
def booleanText (value : Bool) : List Char := (if value then "true" else "false").toList

/-- A line with a field. -/
def fieldLine (name : String) (value : List Char) : List Char := Toml.entryLine name.toList value

/-- The configuration as it is written. Attributes stand in a table of their own. -/
def toText (config : Configuration) : String :=
  .ofList (fieldLine "dark_mode" (booleanText config.darkMode) ++
    fieldLine "diagram_language" (Toml.encode config.diagramLanguage.toList) ++
    fieldLine "sequential_diagram_ids" (booleanText config.numbersDiagrams) ++
    fieldLine "mermaid_cli" (Toml.encode config.renderer.toList) ++
    (match config.bufferPath with
      | some path => fieldLine "buffer_path" (Toml.encode path.toList)
      | none => []) ++
    fieldLine "extra_tags" (Toml.encodeTexts config.extraTags) ++
    "\n[extra_attributes]\n".toList ++
    config.extraAttributes.flatMap fun (tag, names) =>
      Toml.entryLine tag.toList (Toml.encodeTexts names))

/-- What the configuration means for pages. -/
def toPageOptions (config : Configuration) : PageOptions :=
  { darkMode := config.darkMode,
    diagramLanguage := config.diagramLanguage,
    naming := if config.numbersDiagrams then .sequential else .random 0,
    sanitizer := ⟨config.extraTags, config.extraAttributes⟩ }

end Configuration

/-- Why a configuration cannot be read. -/
inductive ConfigurationError where
  /-- The file cannot be read. -/
  | read (path : String) (error : FileError)
  /-- The file is at fault in a place: a line and a column, if it is known. -/
  | parse (path : String) (place : Option (Nat × Nat))
  deriving Repr, DecidableEq

/-- An error in words. -/
def ConfigurationError.message : ConfigurationError → String
  | read path error => "Failed to read config file at " ++ path ++ ": " ++ error.message
  | parse path place =>
    "Failed to parse config file at " ++ path ++ ": " ++
      match place with
      | some (line, column) =>
        "TOML parse error at line " ++ toString line ++ ", column " ++ toString column
      | none => "TOML parse error"

namespace Configuration

/-- A configuration from the text of a file at a path. -/
def parse (path text : String) : Except ConfigurationError Configuration :=
  let fault (remaining : Option Nat) : ConfigurationError :=
    .parse path (remaining.map (Toml.lineColumn text))
  match Toml.read text with
  | .error found => .error (fault (some found.remaining))
  | .ok value => (ofValue value).mapError fun mismatch => fault mismatch.position

variable {m : Type → Type} [Monad m]

/-- The configuration with its paths filled in. A path that cannot be is kept. -/
def fillPaths (host : Host m) (config : Configuration) : m Configuration := do
  let renderer ← fillPath host config.renderer
  let bufferPath ← match config.bufferPath with
    | none => pure none
    | some path => do pure (some ((← fillPath host path).getD path))
  return { config with renderer := renderer.getD config.renderer, bufferPath }

/-- The configuration in a file, if there is one. -/
def load (host : Host m) (path : String) : m (Except ConfigurationError (Option Configuration)) := do
  if !(← host.exists? path) then return .ok none
  match ← host.readText path with
  | .error error => return .error (.read path error)
  | .ok text =>
    match parse path text with
    | .error error => return .error error
    | .ok config => return .ok (some (← config.fillPaths host))

/-- Saves the configuration in a file. The directories around it are made first. -/
def save (host : Host m) (config : Configuration) (path : String) : m (Except FileError Unit) :=
  host.writeText path config.toText

/-- Where the configuration is kept if no other file is named. -/
def usualPath (host : Host m) : m String := do
  let home ← host.environment homeName
  return fillHome home "~/.config/markdown-livepreview" ++ "/config.toml"

end Configuration

end Galley.Settings
