/-!
# Events of a document

A parsed document is read as a sequence of events: a tag opens, a tag closes, or something stands there
that has no inside.

* `Tag` — what can hold other content;
* `Event` — a step in the reading;
* `mergeText` — joins texts that follow each other.
-/

namespace Galley.Markdown

/-- Where the text of a table column is set. -/
inductive Alignment where
  /-- Where the page sets it. -/
  | unset
  /-- At the left edge. -/
  | left
  /-- In the middle. -/
  | center
  /-- At the right edge. -/
  | right
  deriving Repr, DecidableEq

/-- What a link leads to, and the title it carries. -/
structure LinkTarget where
  /-- The address. -/
  destination : String
  /-- The title, empty if there is none. -/
  title : String
  deriving Repr, DecidableEq

/-- What can hold other content. -/
inductive Tag where
  /-- A paragraph. -/
  | paragraph
  /-- A heading of level 1 to 6 and its id, if it has one. -/
  | heading (level : Nat) (id : Option String)
  /-- A quotation. -/
  | blockQuote
  /-- A block of code. A fenced block has an info text, an indented one has none. -/
  | codeBlock (info : Option String)
  /-- A list. A numbered list has a first number. -/
  | list (start : Option Nat)
  /-- An item of a list. -/
  | item
  /-- The text of a footnote. -/
  | footnoteDefinition (label : String)
  /-- A table with the alignment of its columns. -/
  | table (columns : List Alignment)
  /-- The first row of a table. -/
  | tableHead
  /-- Another row of a table. -/
  | tableRow
  /-- A cell. -/
  | tableCell
  /-- Emphasis. -/
  | emphasis
  /-- Strong emphasis. -/
  | strong
  /-- Text that is struck out. -/
  | strikethrough
  /-- A link. A link to a mailbox is written without its scheme. -/
  | link (mailbox : Bool) (target : LinkTarget)
  /-- An image. -/
  | image (target : LinkTarget)
  deriving Repr, DecidableEq

/-- A step in the reading of a document. -/
inductive Event where
  /-- A tag opens. -/
  | start (tag : Tag)
  /-- A tag closes. -/
  | stop (tag : Tag)
  /-- Text. -/
  | text (text : String)
  /-- Code in the line. -/
  | code (code : String)
  /-- Markup that makes up a block. -/
  | html (markup : String)
  /-- Markup in the line. -/
  | inlineHtml (markup : String)
  /-- The end of a line that does not matter. -/
  | softBreak
  /-- The end of a line that is kept. -/
  | hardBreak
  /-- A line across the page. -/
  | rule
  /-- A reference to a footnote. -/
  | footnoteReference (label : String)
  /-- A box, ticked or not. -/
  | taskMarker (checked : Bool)
  deriving Repr, DecidableEq

/-- An event in front of others. A text is joined with the text that follows. -/
def consMerged : Event → List Event → List Event
  | .text a, .text b :: rest => .text (a ++ b) :: rest
  | event, rest => event :: rest

/-- The events with texts joined that follow each other. -/
def mergeText (events : List Event) : List Event := events.foldr consMerged []

end Galley.Markdown
