import Galley.Code.Registry
import Galley.Shortcode
import Galley.Heading.Id
import Galley.Markdown.Document
import Galley.Markdown.Writer
import Galley.Source.Extraction

/-!
# Conversion

From a document whose protected regions were taken out to markup that is not yet safe to show. The events of
the document are taken one by one: headings get ids, code blocks the markup of their language, boxes a class
for their item, and footnotes a section at the end.

* `Draft` — what has been written, and what is being read;
* `Draft.step` — takes one event;
* `Draft.finish` — all events, with the footnotes at the end;
* `convert` — the markup of a document and its diagrams.
-/

namespace Galley

open Galley.Markdown (Event Tag)

/-- The markup of a document. -/
structure Conversion where
  /-- The markup. -/
  html : String
  /-- The diagrams in the order of the document. -/
  diagrams : List Diagram.NamedDiagram
  deriving Repr, DecidableEq

/-- What every event of a document may need. -/
structure Sources where
  /-- What was taken out of the document. -/
  extraction : Source.Extraction
  /-- What is made of fenced code. -/
  registry : Code.Registry
  /-- The keys of the footnotes that the document defines. -/
  defined : List String

/-- What has been written of a document, and what is being read. -/
structure Draft where
  /-- The events that have been written, the latest first. -/
  out : List Event
  /-- The footnote that is being read: its key and its events, the latest first. -/
  footnote : Option (String × List Event)
  /-- The footnotes that have been read, by their keys. -/
  definitions : List (String × List Event)
  /-- The keys of the footnotes referred to, in the order of their first references, and how often. -/
  references : List (String × Nat)
  /-- The ids of headings in use. -/
  used : Heading.UsedIds
  /-- The text of the heading that is being read. -/
  heading : Option String
  /-- The info text and the code of the block that is being read. -/
  code : Option Code.CodeBlock
  /-- How many images are open. -/
  imageDepth : Nat
  /-- The diagrams so far. -/
  diagrams : Code.PassDiagrams

namespace Draft

/-- Nothing written yet. -/
def start (ids : Diagram.Naming) : Draft :=
  ⟨[], none, [], [], .empty, none, none, 0, .ofIds ids⟩

/-- The key of a footnote: its label in lower case. -/
def footnoteKey (label : String) : String := .ofList (Text.lower label.toList)

/-- The state with other events where events go now. -/
def mapEvents (state : Draft) (f : List Event → List Event) : Draft :=
  match state.footnote with
  | some (key, events) => { state with footnote := some (key, f events) }
  | none => { state with out := f state.out }

/-- The state with one more event. -/
def push (state : Draft) (event : Event) : Draft := state.mapEvents (event :: ·)

/-- Events, the latest first, with the last one changed that `change?` has an answer for. -/
def changeLatest (change? : Event → Option Event) : List Event → List Event
  | [] => []
  | event :: rest =>
    match change? event with
    | some changed => changed :: rest
    | none => event :: changeLatest change? rest

/-- The start of a heading with an id. -/
def withId? (id : String) : Event → Option Event
  | .start (.heading level _) => some (.start (.heading level (some id)))
  | _ => none

/-- The start of an item as markup with the class of tasks. -/
def asTask? : Event → Option Event
  | .start .item => some (.html "<li class=\"task-list-item\">")
  | _ => none

/-- Ends a heading: its start gets the id that is made of its text. -/
def endHeading (state : Draft) : Draft :=
  match state.heading with
  | none => state
  | some text =>
    let (id, used) := state.used.assign text
    let state := { state with heading := none, used }
    match id with
    | none => state
    | some id => state.mapEvents (changeLatest (withId? id))

/-- Ends a block of code. -/
def endCode (state : Draft) (sources : Sources) (block : Code.CodeBlock) : Draft :=
  let block := { block with code := sources.extraction.unmask block.code }
  let (html, diagrams) := sources.registry.render block state.diagrams
  { state with code := none, diagrams }.push (.html html)

/-- The reference to a footnote with a number. `count` tells how many references to it there are now. -/
def referenceMarkup (number count : Nat) : String :=
  let number := toString number
  let id := if count == 1 then "fnref-" ++ number else "fnref-" ++ number ++ "-" ++ toString count
  "<sup class=\"footnote-ref\"><a href=\"#fn-" ++ number ++ "\" id=\"" ++ id ++ "\">" ++ number ++
    "</a></sup>"

/-- The references with one more to a footnote, its number, and how many there are to it. `number` is the
number of the first footnote in the list. -/
def countReference (key : String) (number : Nat) :
    List (String × Nat) → List (String × Nat) × Nat × Nat
  | [] => ([(key, 1)], number, 1)
  | (other, count) :: rest =>
    if other == key then ((other, count + 1) :: rest, number, count + 1)
    else
      let (rest, found) := countReference key (number + 1) rest
      ((other, count) :: rest, found)

/-- A reference to a footnote. Without a footnote it is text. -/
def reference (state : Draft) (sources : Sources) (label : String) : Draft :=
  let key := footnoteKey label
  if sources.defined.contains key then
    let (references, number, count) := countReference key 1 state.references
    { state with references }.push (.inlineHtml (referenceMarkup number count))
  else state.push (.text ("[^" ++ label ++ "]"))

/-- Ends a footnote. The first one with a key counts. -/
def endFootnote (state : Draft) : Draft :=
  match state.footnote with
  | none => state
  | some (key, events) =>
    let state := { state with footnote := none }
    if (state.definitions.lookup key).isSome then state
    else { state with definitions := state.definitions ++ [(key, events.reverse)] }

/-- A target with its tokens replaced by what they stand for. -/
def unmaskTarget (sources : Sources) (target : Markdown.LinkTarget) : Markdown.LinkTarget :=
  ⟨sources.extraction.unmask target.destination, sources.extraction.unmask target.title⟩

/-- Text. In a heading it counts for the id, and in an image tokens are replaced by what they stand
for. -/
def text (state : Draft) (sources : Sources) (text : String) : Draft :=
  let heading := state.heading.map (· ++ sources.extraction.unmask text)
  let text := if 0 < state.imageDepth then sources.extraction.unmask text else text
  { state with heading }.push (.text (Shortcode.expand text))

/-- Takes one event outside of blocks of code. -/
def stepOutside (state : Draft) (sources : Sources) : Event → Draft
  | .start (.codeBlock info) => { state with code := some ⟨info.getD "", ""⟩ }
  | .start (.heading level id) => { state.push (.start (.heading level id)) with heading := some "" }
  | .stop (.heading level id) => state.endHeading.push (.stop (.heading level id))
  | .start (.footnoteDefinition label) => { state with footnote := some (footnoteKey label, []) }
  | .stop (.footnoteDefinition _) => state.endFootnote
  | .footnoteReference label => state.reference sources label
  | .taskMarker isChecked => (state.mapEvents (changeLatest asTask?)).push (.taskMarker isChecked)
  | .start (.image target) =>
    { state with imageDepth := state.imageDepth + 1 }.push (.start (.image (unmaskTarget sources target)))
  | .stop (.image target) =>
    { state with imageDepth := state.imageDepth - 1 }.push (.stop (.image target))
  | .start (.link mailbox target) => state.push (.start (.link mailbox (unmaskTarget sources target)))
  | .text t => state.text sources t
  | .code t =>
    let code := sources.extraction.unmask t
    { state with heading := state.heading.map (· ++ code) }.push (.code code)
  | event => state.push event

/-- Takes one event. In a block of code only its text and its end count. -/
def step (sources : Sources) (state : Draft) (event : Event) : Draft :=
  match state.code, event with
  | none, event => state.stepOutside sources event
  | some block, .text t => { state with code := some { block with code := block.code ++ t } }
  | some block, .stop (.codeBlock _) => state.endCode sources block
  | some _, _ => state

/-- The link from a footnote back to its first reference. -/
def backReference (number : Nat) : Event :=
  .inlineHtml (" <a href=\"#fnref-" ++ toString number ++ "\" class=\"footnote-backref\">↩</a>")

/-- The events of a footnote, the latest first, with the link back in them: at the end of the last
paragraph, if there is one. -/
def insertBack? (back : Event) : List Event → Option (List Event)
  | [] => none
  | .stop .paragraph :: rest => some (.stop .paragraph :: back :: rest)
  | event :: rest => (insertBack? back rest).map (event :: ·)

/-- The item of a footnote. -/
def footnoteItem (number : Nat) (events : List Event) : List Event :=
  let back := backReference number
  let body := (insertBack? back events.reverse).getD (back :: events.reverse)
  .html ("<li id=\"fn-" ++ toString number ++ "\">\n") :: (body.reverse ++ [.html "</li>\n"])

/-- The items of footnotes from a number on. -/
def footnoteItems (definitions : List (String × List Event)) : Nat → List String → List Event
  | _, [] => []
  | number, key :: rest =>
    footnoteItem number ((definitions.lookup key).getD []) ++
      footnoteItems definitions (number + 1) rest

/-- The section of the footnotes that are referred to, in the order of their first references. -/
def footnoteSection (state : Draft) : List Event :=
  if state.references.isEmpty then []
  else
    .html "<section class=\"footnotes\">\n<ol>\n" ::
      (footnoteItems state.definitions 1 (state.references.map Prod.fst) ++
        [.html "</ol>\n</section>\n"])

/-- All events in their order, with the footnotes at the end. -/
def finish (state : Draft) : List Event :=
  let state := state.endFootnote
  state.out.reverse ++ state.footnoteSection

end Draft

/-- The keys of the footnotes that some events define. -/
def definedFootnotes (events : List Event) : List String :=
  events.filterMap fun event =>
    match event with
    | .start (.footnoteDefinition label) => some (Draft.footnoteKey label)
    | _ => none

/-- The state after all events of a document. -/
def draftOfEvents (extraction : Source.Extraction) (registry : Code.Registry)
    (ids : Diagram.Naming) (events : List Event) : Draft :=
  events.foldl (Draft.step ⟨extraction, registry, definedFootnotes events⟩) (.start ids)

/-- The markup of a document whose protected regions were taken out, and its diagrams. -/
def convert (extraction : Source.Extraction) (registry : Code.Registry)
    (ids : Diagram.Naming) : Conversion :=
  let state := draftOfEvents extraction registry ids (Markdown.parse extraction.text)
  { html := Markdown.write state.finish, diagrams := state.diagrams.nodes }

end Galley
