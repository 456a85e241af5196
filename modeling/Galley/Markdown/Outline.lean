import Galley.Markdown.Content
import Galley.Markdown.Opening

/-!
# The outline of a document

The blocks of a document and, while it is read, the containers that are open.

* `Container`, `Block` — what a document consists of;
* `Outline` — the open containers and the finished blocks;
* `Outline.add`, `Outline.openContainer`, `Outline.close` — the steps of the reading;
* `Outline.finishList`, `Outline.continueList` — what ends a list or goes on with it;
* `continued` — how many containers go on with a line.
-/

namespace Galley.Markdown

/-- A block that holds other blocks. -/
inductive Container where
  /-- A quotation. -/
  | quote
  /-- A list. In a tight one, paragraphs have no tags of their own. -/
  | list (mark : ListMark) (isTight : Bool)
  /-- An item of a list, and by how many columns its content is indented. -/
  | item (indent : Nat)
  /-- The text of a footnote. -/
  | footnote (label : List Char)
  deriving Repr, DecidableEq

/-- A block of a document. -/
inductive Block where
  /-- A paragraph. -/
  | paragraph (content : Content)
  /-- A heading. -/
  | heading (level : Nat) (content : Content)
  /-- Code. A fenced block has an info text. -/
  | code (info : Option (List Char)) (code : List Char)
  /-- Markup. -/
  | html (markup : List Char)
  /-- A line across the page. -/
  | rule
  /-- A table. -/
  | table (columns : List Alignment) (head : List Content) (rows : List (List Content))
  /-- A box without text. -/
  | task (isChecked : Bool)
  /-- A block that holds others. -/
  | container (kind : Container) (blocks : List Block)

/-- An open container. -/
structure OpenContainer where
  /-- What it is. -/
  kind : Container
  /-- The blocks in it, the latest first. -/
  blocks : List Block

/-- A document while it is read. -/
structure Outline where
  /-- The open containers, the innermost first. -/
  opened : List OpenContainer
  /-- The finished blocks outside of all open containers, the latest first. -/
  blocks : List Block
  /-- Whether the line before was blank. -/
  afterBlank : Bool
  /-- Whether the innermost container is an item that began with a blank line and has no content yet. -/
  inEmptyItem : Bool
  /-- What has been defined. -/
  definitions : Definitions

namespace Outline

/-- A document of which nothing is read. -/
def empty : Outline := ⟨[], [], false, false, .empty⟩

/-- The open containers, the outermost first. -/
def containers (outline : Outline) : List Container :=
  (outline.opened.map OpenContainer.kind).reverse

/-- Adds a block to the innermost container. -/
def add (outline : Outline) (block : Block) : Outline :=
  match outline.opened with
  | [] => { outline with blocks := block :: outline.blocks }
  | inner :: outer =>
    { outline with opened := { inner with blocks := block :: inner.blocks } :: outer }

/-- Opens a container. -/
def openContainer (outline : Outline) (kind : Container) : Outline :=
  { outline with opened := ⟨kind, []⟩ :: outline.opened }

/-- Closes the innermost container. -/
def close (outline : Outline) : Outline :=
  match outline.opened with
  | [] => outline
  | inner :: outer => { outline with opened := outer }.add (.container inner.kind inner.blocks.reverse)

/-- Closes containers until `depth` are open. -/
def closeTo (outline : Outline) (depth : Nat) : Outline :=
  (List.range (outline.opened.length - depth)).foldl (fun o _ => o.close) outline

/-- Whether the innermost container is a list. -/
def inList (outline : Outline) : Bool :=
  match outline.opened with
  | ⟨.list _ _, _⟩ :: _ => true
  | _ => false

/-- Closes an item that has no content after two blank lines. -/
def finishEmptyItem (outline : Outline) : Outline :=
  let closed := match outline.opened with
    | ⟨.item _, _⟩ :: _ => if outline.inEmptyItem && outline.afterBlank then outline.close else outline
    | _ => outline
  { closed with inEmptyItem := false }

/-- An open list as a loose one. -/
def OpenContainer.loosen (container : OpenContainer) : OpenContainer :=
  match container.kind with
  | .list mark _ => { container with kind := .list mark false }
  | _ => container

/-- Closes a list that does not go on. A blank line before content of an item makes the list around the
item loose. -/
def finishList (outline : Outline) : Outline :=
  let outline := outline.finishEmptyItem
  let outline := if outline.inList then outline.close else outline
  if outline.afterBlank then
    let opened := match outline.opened with
      | inner :: around :: outer => inner :: OpenContainer.loosen around :: outer
      | other => other
    { outline with opened, afterBlank := false }
  else outline

/-- Opens a list for an item with a mark, unless one of its kind is open. A blank line before the item
makes the list loose. -/
def continueList (outline : Outline) (mark : ListMark) : Outline :=
  let outline := outline.finishEmptyItem
  let start (outline : Outline) : Outline :=
    { outline.openContainer (.list mark true) with afterBlank := false }
  match outline.opened with
  | ⟨.list current isTight, blocks⟩ :: outer =>
    if current.mark == mark.mark then
      let isTight := isTight && !outline.afterBlank
      { outline with opened := ⟨.list current isTight, blocks⟩ :: outer, afterBlank := false }
    else start outline.finishList
  | [] => start outline
  | _ => start outline.finishList

/-- Notes a blank line. In a quotation it means nothing to the lists around; an item without content does
not go on after it, but its list does. -/
def noteBlank (outline : Outline) : Outline :=
  match outline.opened with
  | ⟨.quote, _⟩ :: _ => outline
  | ⟨.item indent, blocks⟩ :: outer =>
    let indent := if outline.inEmptyItem then 0 else indent
    { outline with opened := ⟨.item indent, blocks⟩ :: outer, afterBlank := true }
  | _ => { outline with afterBlank := true }

end Outline

/-- A footnote goes on with lines that are indented by this many columns. -/
def footnoteIndent : Nat := 4

/-- The margin inside a container that goes on with a line. Lists themselves have no mark. -/
def Container.continue? (container : Container) (margin : Margin) : Option Margin :=
  match container with
  | .quote => (margin.indent 3).2.quoteMark?
  | .list _ _ => some margin
  | .item indent => margin.indentOrEnd? indent
  | .footnote _ => margin.indentOrEnd? footnoteIndent

/-- How many containers go on with a line, and the margin inside them. The outermost comes first. -/
def continued : List Container → Margin → Nat × Margin
  | [], margin => (0, margin)
  | container :: inner, margin =>
    match container.continue? margin with
    | some next =>
      let (count, last) := continued inner next
      (count + 1, last)
    | none => (0, margin)

/-- The text of a line inside all of some containers, if they all go on with it. -/
def inside? (containers : List Container) (line : List Char) : Option (List Char) :=
  let (count, margin) := continued containers (.ofLine line)
  if count == containers.length then some margin.rest else none

end Galley.Markdown
