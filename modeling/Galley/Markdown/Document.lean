import Galley.Markdown.Inline
import Galley.Markdown.Leaf

/-!
# Documents

* `readContainers`, `readLeaf`, `readBlock` — read what a line begins into the outline;
* `Outline.ofText` — the outline of a document;
* `Block.events` — the events of a block;
* `parse` — the events of a document.
-/

namespace Galley.Markdown

/-- What is left of a line after its containers. -/
inductive LineRest where
  /-- The line goes on at a margin. -/
  | line (margin : Margin)
  /-- All of the line has been read, and the text goes on with the next one. -/
  | done (rest : List Char)

/-- What a list mark takes from its line: its columns with the blanks after it, and the margin after them.
With five or more columns of blanks, or without text, only one of them belongs to the mark. -/
def itemMargin? (outer : Nat) (margin : Margin) : Option (ListMark × Nat × Margin) := do
  let (mark, width, rest) ← listMark? margin.rest
  if !endsMark rest || (isBullet mark.mark && (ruleEnd? margin.rest).isSome) then none
  else
    let afterMark : Margin :=
      { margin with before := mark.mark, rest, column := margin.column + width }
    let inner := (afterMark.indent 1).2
    let indent := outer + width + 1
    if isBlankLine inner.rest then some (mark, indent, inner)
    else
      let (missing, body) := inner.indent 4
      if missing == 0 then some (mark, indent, inner) else some (mark, indent + 4 - missing, body)

/-- Reads the mark of a list item, the item itself if it has no text, and a paragraph after a box. -/
def readItem (outline : Outline) (mark : ListMark) (indent : Nat) (margin : Margin) :
    Outline × LineRest :=
  let outline := (outline.continueList mark).openContainer (.item indent)
  match dropBlankLine? margin.rest with
  | some rest => ({ outline with inEmptyItem := true }, .done rest)
  | none =>
    match taskMark? (margin.indent 3).2.rest with
    | none => (outline, .line margin)
    | some (isChecked, rest) =>
      match dropBlankLine? rest with
      | some next => ({ outline.add (.task isChecked) with inEmptyItem := true }, .done next)
      | none =>
        let (block, rest) := paragraph outline.containers ' ' (some isChecked) (rest.dropWhile isSpace)
        (outline.add block, .done rest)

/-- Opens a footnote. Another one does not go on after it. -/
def Outline.openFootnote (outline : Outline) (label : List Char) : Outline :=
  let outline := outline.finishList
  let outline := match outline.opened with
    | ⟨.footnote _, _⟩ :: _ => outline.close
    | _ => outline
  { outline.openContainer (.footnote label) with definitions := outline.definitions.addFootnote label }

/-- Opens the containers that begin on a line. `fuel` bounds their number. -/
def readContainers : (fuel : Nat) → Outline → Margin → Outline × LineRest
  | 0, outline, margin => (outline, .line margin)
  | fuel + 1, outline, margin =>
    let (missing, inner) := margin.indent 4
    if missing == 0 then (outline, .line margin)
    else
      match footnoteMark? inner.rest with
      | some (label, rest) =>
        readContainers fuel (outline.openFootnote label) { Margin.ofLine rest with before := ' ' }
      | none =>
        match itemMargin? (4 - missing) inner with
        | some (mark, indent, body) =>
          match readItem outline mark indent body with
          | (outline, .line margin) => readContainers fuel outline margin
          | handled => handled
        | none =>
          match inner.quoteMark? with
          | some body => readContainers fuel (outline.finishList.openContainer .quote) body
          | none => (outline, .line margin)

/-- The end mark of the block of markup that a text begins, if it begins one. Markup without an end mark
ends with a blank line. -/
def markupStart? : List Char → Option (Option String)
  | '<' :: cs =>
    match RawHtml.blockEnd? cs with
    | some stop => some (some stop)
    | none =>
      if RawHtml.opensBlock cs || (RawHtml.tag? false cs).any isBlankLine then some none else none
  | _ => none

/-- The block that a line begins with that is not indented as code, and the text after it. `pending` and
`indent` are the blanks in front of it. -/
def leafBlock (containers : List Container) (pending indent : Nat) (margin : Margin) :
    Block × List Char :=
  let cs := margin.rest
  match markupStart? cs with
  | some stop =>
    let (text, rest) := markup containers stop (cs.length + 1) (max pending indent) cs
    (.html text, rest)
  | none =>
    match ruleEnd? cs with
    | some rest => (.rule, rest)
    | none =>
      match headingLevel? cs with
      | some level => heading level cs
      | none =>
        match fenceOpening? cs with
        | some fence =>
          let (line, next) := splitLine (cs.drop fence.length)
          let info := Text.dropEndWhile isSpaceOrBreak (line.dropWhile isSpace)
          let (code, rest) := fencedCode containers fence indent (next.length + 1) next
          (.code (some (unescape info)) code, rest)
        | none => paragraph containers margin.before none cs

/-- Reads the block that a line begins with, once its containers are open. -/
def readLeaf (outline : Outline) (margin : Margin) : Outline × List Char :=
  let containers := outline.containers
  let (missing, inner) := margin.indent 4
  if missing == 0 then
    let (code, endsBlank, rest) := indentedCode containers (inner.rest.length + 1) inner
    ({ outline.add (.code none code) with afterBlank := endsBlank }, rest)
  else
    match linkDefinition? containers inner.rest with
    | some (label, target, rest) =>
      ({ outline with definitions := outline.definitions.addLink label target },
        (dropBlankLine? rest).getD rest)
    | none =>
      let (block, rest) := leafBlock containers margin.pending (4 - missing) inner
      (outline.add block, rest)

/-- Reads the block that a text begins with into the outline, and gives the text after it. -/
def readBlock (outline : Outline) (cs : List Char) : Outline × List Char :=
  let (count, margin) := continued outline.containers (.ofLine cs)
  let outline := outline.closeTo count
  match readContainers (margin.rest.length + 1) outline margin with
  | (outline, .done rest) => (outline, rest)
  | (outline, .line margin) =>
    match dropBlankLine? margin.rest with
    | some rest => (outline.noteBlank, rest)
    | none => readLeaf outline.finishList margin

/-- Reads a text into the outline, block by block, as long as there is less and less left of it. -/
def readBlocks (outline : Outline) (cs : List Char) : Outline :=
  if cs.isEmpty then outline
  else
    let (outline, rest) := readBlock outline cs
    if rest.length < cs.length then readBlocks outline rest else outline
termination_by cs.length

/-- The outline of a document. -/
def Outline.ofText (text : String) : Outline := (readBlocks .empty text.toList).closeTo 0

/-- The events of a block of text. -/
def contentEvents (definitions : Definitions) (content : Content) : List Event :=
  Node.eventsOf (content.nodes definitions)

/-- The events of the content of a tag. -/
def tagged (tag : Tag) (content : List Event) : List Event := .start tag :: (content ++ [.stop tag])

/-- The events of a row of a table. -/
def rowEvents (definitions : Definitions) (tag : Tag) (cells : List Content) : List Event :=
  tagged tag (cells.flatMap fun cell => tagged .tableCell (contentEvents definitions cell))

/-- The tag of a container. -/
def Container.tag : Container → Tag
  | .quote => .blockQuote
  | .list mark _ => .list (if mark.isNumbered then some mark.number else none)
  | .item _ => .item
  | .footnote label => .footnoteDefinition (.ofList label)

mutual

/-- The events of a block. `isTight` tells whether it stands in a tight list. -/
def Block.events (definitions : Definitions) (isTight : Bool) : Block → List Event
  | .paragraph content =>
    let events := contentEvents definitions content
    if isTight then events else tagged .paragraph events
  | .heading level content => tagged (.heading level none) (contentEvents definitions content)
  | .code info body =>
    tagged (.codeBlock (info.map String.ofList)) (if body.isEmpty then [] else [.text (.ofList body)])
  | .html markup => [.html (.ofList markup)]
  | .rule => [.rule]
  | .table columns head rows =>
    tagged (.table columns)
      (rowEvents definitions .tableHead head ++ rows.flatMap (rowEvents definitions .tableRow))
  | .task isChecked => [.taskMarker isChecked]
  | .container kind blocks =>
    let isTight := match kind with
      | .list _ isTight => isTight
      | .item _ => isTight
      | _ => false
    tagged kind.tag (Block.eventsOf definitions isTight blocks)

/-- The events of some blocks. -/
def Block.eventsOf (definitions : Definitions) (isTight : Bool) : List Block → List Event
  | [] => []
  | block :: rest => block.events definitions isTight ++ Block.eventsOf definitions isTight rest

end

/-- The events of a document. -/
def parse (text : String) : List Event :=
  let outline := Outline.ofText text
  mergeText (Block.eventsOf outline.definitions false outline.blocks.reverse)

end Galley.Markdown
