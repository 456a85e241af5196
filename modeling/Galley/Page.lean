import Galley.Conversion
import Galley.Heading.Contents
import Galley.Math.Grammar
import Galley.Sanitizer.Clean
import Galley.Settings.Value

/-!
# Pages

One pass takes a document to a page: protected regions are taken out, the rest is converted, the regions
come back as formulas and tables of contents, and what may not stand in a page is removed.

* `PageOptions` — what a reader can choose, and `PageOptions.ofValue`, how it is read;
* `PageContext` — the options and what a pass calls on;
* `Page` — what a pass gives;
* `PageMaker.make` — one pass;
* `makePage` — one pass with the usual options.
-/

namespace Galley

open Galley.Diagram (NamedDiagram Naming)
open Galley.Sanitizer (Allowance SanitizerError)
open Galley.Settings (Decoded Fields Value)

/-- What a reader can choose. -/
structure PageOptions where
  /-- Whether the page is dark. -/
  darkMode : Bool
  /-- The language of the code blocks that are diagrams. -/
  diagramLanguage : String
  /-- How diagrams are named. -/
  naming : Naming
  /-- What a page may hold beyond the usual. -/
  sanitizer : Allowance
  deriving Repr, DecidableEq

/-- The language of diagrams if none is chosen. -/
def usualDiagramLanguage : String := "mermaid"

/-- The usual options. -/
def PageOptions.usual : PageOptions := ⟨false, usualDiagramLanguage, .random 0, .none⟩

/-- How diagrams are named, by its name. -/
def namingOfValue (value : Value) : Decoded Naming := do
  let name ← value.unit?
  if name == "random" then return .random 0
  else if name == "sequential" then return .sequential
  else Value.mismatch

/-- What a page may hold beyond the usual, as it is written in settings. -/
def allowanceOfValue (value : Value) : Decoded Allowance := do
  let fields ← value.fields ["extra_tags", "extra_attributes"]
  return {
    extraTags := ← fields.read "extra_tags" Value.texts? [],
    extraAttributes := ← fields.read "extra_attributes" Value.textLists? [] }

/-- Options as they are written in settings. What is not given is as usual. -/
def PageOptions.ofValue (value : Value) : Decoded PageOptions := do
  let fields ← value.fields ["dark_mode", "diagram_language", "diagram_ids", "sanitizer"]
  let usual := PageOptions.usual
  return {
    darkMode := ← fields.read "dark_mode" Value.boolean? usual.darkMode,
    diagramLanguage := ← fields.read "diagram_language" Value.text? usual.diagramLanguage,
    naming := ← fields.read "diagram_ids" namingOfValue usual.naming,
    sanitizer := ← fields.read "sanitizer" allowanceOfValue usual.sanitizer }

/-- The options and what a pass calls on. -/
structure PageContext where
  /-- The options. -/
  options : PageOptions
  /-- What is made of fenced code. -/
  registry : Code.Registry
  /-- What is made of formulas. -/
  typesetMath : Math.Typesetter

/-- The usual context for some options. -/
def PageContext.ofOptions (options : PageOptions) : PageContext :=
  ⟨options, .ofDiagramTag options.diagramLanguage, Math.strictTypesetter⟩

/-- What a pass gives. -/
structure Page where
  /-- The page. -/
  html : String
  /-- The diagrams in the order of the document. -/
  diagrams : List NamedDiagram
  /-- The headings, if the document asks for a table of contents. -/
  contents : List Heading.ContentsEntry
  deriving Repr, DecidableEq

/-- How far a pass has come, as it can be seen from outside. -/
inductive Progress where
  /-- Nothing is left to do. -/
  | idle
  /-- Diagrams wait for their pictures. -/
  | awaitingPictures
  deriving Repr, DecidableEq

/-- Makes pages of one document after the other. -/
structure PageMaker where
  /-- The context of every pass. -/
  context : PageContext
  /-- How many passes there were. -/
  passes : Nat

namespace PageMaker

/-- A maker before its first pass. -/
def ofContext (context : PageContext) : PageMaker := ⟨context, 0⟩

/-- How diagrams are named in the next pass. Random names differ from pass to pass. -/
def passIds (maker : PageMaker) : Naming :=
  match maker.context.options.naming with
  | .random seed => .random (Diagram.mix (seed + maker.passes.toUInt64 + 1))
  | .sequential => .sequential

/-- The headings of a document, if it asks for a table of contents. -/
def contentsOf (extraction : Source.Extraction) (source : String) : List Heading.ContentsEntry :=
  if extraction.asksForContents then Heading.contents source else []

/-- What stands in the page for a region that was taken out. -/
def standIn (context : PageContext) (contentsMarkup : String) (fragment : Source.Fragment)
    (standing : Source.Standing) : String :=
  match fragment.formula? with
  | some formula => Math.formulaMarkup context.typesetMath formula fragment.source standing
  | none => contentsMarkup

/-- The markup of a document before it is made clean. -/
def assembled (context : PageContext) (extraction : Source.Extraction) (markup : String)
    (contents : List Heading.ContentsEntry) : String :=
  if extraction.isEmpty then markup
  else extraction.fill markup (standIn context (Heading.contentsMarkup contents))

/-- One pass, and the maker after it. -/
def make (maker : PageMaker) (source : String) :
    Except SanitizerError (Page × PageMaker) := do
  let context := maker.context
  let extraction := Source.Extraction.ofText source
  let conversion := convert extraction context.registry maker.passIds
  let contents := contentsOf extraction source
  let whole := assembled context extraction conversion.html contents
  let html ← Sanitizer.clean context.options.sanitizer whole
  return (⟨html, conversion.diagrams, contents⟩, { maker with passes := maker.passes + 1 })

end PageMaker

/-- One pass with the usual options. `seed` is where the names of diagrams are drawn from. -/
def makePage (seed : UInt64) (source : String) : Except SanitizerError Page :=
  let options := { PageOptions.usual with naming := .random seed }
  ((PageMaker.ofContext (.ofOptions options)).make source).map Prod.fst

end Galley
