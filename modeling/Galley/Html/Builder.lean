import Galley.Html.Dom
import Galley.Html.Names
import Galley.Html.Token

/-!
# Building trees

The state in which a tree is built from tokens, and the steps that the rules consist of.

* `OpenElement`, `Formatting`, `Mode`, `Builder` — the state;
* `Builder.inScope` — whether an open element can be closed from here;
* `Builder.insert`, `Builder.addText` — new elements and text;
* `Builder.popThrough`, `Builder.closeImplied` — the ends of elements;
* `Builder.reopenFormatting`, `Builder.closeFormatting` — formatting that goes on across blocks.
-/

namespace Galley.Html

/-- An open element. -/
structure OpenElement where
  /-- The number of its cell. -/
  id : Nat
  /-- Its vocabulary. -/
  space : Namespace
  /-- Its name. -/
  name : String
  /-- Whether HTML can stand in it though it is foreign. -/
  holdsHtml : Bool
  deriving Repr

namespace OpenElement

/-- Whether it is an element of HTML with a name. -/
def isHtml (element : OpenElement) (name : String) : Bool :=
  element.space == .html && element.name == name

/-- Whether it is an element of HTML with one of some names. -/
def isOneOf (element : OpenElement) (names : List String) : Bool :=
  element.space == .html && names.contains element.name

/-- Whether it is a foreign element that ends searches. -/
def isForeignBarrier (element : OpenElement) : Bool :=
  (element.space == .mathml && (mathTextNames.contains element.name || element.name == "annotation-xml")) ||
    (element.space == .svg && svgTextNames.contains element.name)

/-- Whether it ends the search for an element to close. -/
def isSpecial (element : OpenElement) : Bool :=
  element.isOneOf specialNames || element.isForeignBarrier

end OpenElement

/-- An entry in the list of formatting that goes on. -/
inductive Formatting where
  /-- Formatting before it does not go on after it. -/
  | marker
  /-- An element and the tag that opened it. -/
  | element (id : Nat) (tag : StartTag)
  deriving Repr

/-- Whether an entry is the element with a number. -/
def Formatting.isElement (entry : Formatting) (id : Nat) : Bool :=
  match entry with
  | .marker => false
  | .element other _ => other == id

/-- Which rules are in force. -/
inductive Mode where
  /-- Among text and blocks. -/
  | inBody
  /-- In an element that holds text only. -/
  | inText
  /-- In a table, outside its parts. -/
  | inTable
  /-- In text that stands in a table, outside its cells. -/
  | inTableText
  /-- In the caption of a table. -/
  | inCaption
  /-- In a group of columns. -/
  | inColumnGroup
  /-- In a group of rows. -/
  | inTableBody
  /-- In a row. -/
  | inRow
  /-- In a cell. -/
  | inCell
  /-- In a template. -/
  | inTemplate
  deriving Repr, DecidableEq

/-- The state in which a tree is built. -/
structure Builder where
  /-- The document. -/
  dom : Dom
  /-- The open elements, the innermost first. -/
  opened : List OpenElement
  /-- The formatting that goes on, the latest first. -/
  formatting : List Formatting
  /-- The rules in force. -/
  mode : Mode
  /-- The rules to go back to. -/
  returnMode : Mode
  /-- The rules of the open templates, the innermost first. -/
  templates : List Mode
  /-- The text that stands in a table, outside its cells. -/
  tableText : List Char
  /-- The number of the open form. -/
  form : Option Nat
  /-- Whether what cannot stand in a table goes in front of it. -/
  fosters : Bool
  /-- Whether a line feed that follows now is left out. -/
  skipsBreak : Bool
  /-- How the next text is read. -/
  textMode : TextMode

namespace Builder

/-- The root as an open element. -/
def root : OpenElement := ⟨0, .html, "html", false⟩

/-- The state at the start. -/
def empty : Builder :=
  ⟨.empty, [root], [], .inBody, .inBody, [], [], none, false, false, .markup⟩

/-- The innermost open element. -/
def current (builder : Builder) : OpenElement := builder.opened.head?.getD root

/-! ## Open elements -/

/-- Whether one of some open elements is sought before one that ends the search. -/
def search (isSought isBarrier : OpenElement → Bool) : List OpenElement → Bool
  | [] => false
  | element :: rest =>
    isSought element || (!isBarrier element && search isSought isBarrier rest)

/-- Elements that end most searches. -/
def scopeNames : List String :=
  ["applet", "caption", "html", "table", "td", "th", "marquee", "object", "select", "template"]

/-- Whether an element ends searches, where some more names do so. -/
def isBarrier (more : List String) (element : OpenElement) : Bool :=
  element.isOneOf scopeNames || element.isForeignBarrier || element.isOneOf more

/-- Whether an element with one of some names is open here. -/
def inScope (builder : Builder) (names : List String) : Bool :=
  search (·.isOneOf names) (isBarrier []) builder.opened

/-- Whether an element with a name is open here, buttons being closed. -/
def inButtonScope (builder : Builder) (name : String) : Bool :=
  search (·.isHtml name) (isBarrier ["button"]) builder.opened

/-- Whether an item is open here, lists being closed. -/
def inListScope (builder : Builder) (name : String) : Bool :=
  search (·.isHtml name) (isBarrier ["ol", "ul"]) builder.opened

/-- Whether a part of a table with one of some names is open in the innermost table. -/
def inTableScope (builder : Builder) (names : List String) : Bool :=
  search (·.isOneOf names) (·.isOneOf ["html", "table", "template"]) builder.opened

/-- Whether an element with a name is open. -/
def isOpen (builder : Builder) (name : String) : Bool := builder.opened.any (·.isHtml name)

/-- Closes the innermost element. The root stays. -/
def pop (builder : Builder) : Builder :=
  match builder.opened with
  | _ :: next :: rest => { builder with opened := next :: rest }
  | _ => builder

/-- The elements left open when all up to and including a sought one are closed. The last one stays. -/
def dropThrough (isSought : OpenElement → Bool) : List OpenElement → List OpenElement
  | [] => []
  | [element] => [element]
  | element :: rest => if isSought element then rest else dropThrough isSought rest

/-- Closes all elements up to and including one of some names. -/
def popThrough (builder : Builder) (names : List String) : Builder :=
  { builder with opened := dropThrough (·.isOneOf names) builder.opened }

/-- Closes elements until one of some names is the innermost. -/
def popTo (builder : Builder) (names : List String) : Builder :=
  { builder with opened := builder.opened.dropWhile fun element => !element.isOneOf ("html" :: names) }

/-- Closes elements that end without a closing tag, but not those of some name. -/
def closeImplied (builder : Builder) (except : List String) : Builder :=
  { builder with opened := builder.opened.dropWhile fun element =>
      element.isOneOf impliedEnds && !element.isOneOf except }

/-- Closes elements up to and including a paragraph. -/
def closeParagraph (builder : Builder) : Builder :=
  (builder.closeImplied ["p"]).popThrough ["p"]

/-- Closes a paragraph if one is open here. -/
def endParagraph (builder : Builder) : Builder :=
  if builder.inButtonScope "p" then builder.closeParagraph else builder

/-! ## New elements and text -/

/-- Where something new goes that belongs into an element: usually last in it. What cannot stand in a table
goes in front of the table. -/
def placeIn (builder : Builder) (target : OpenElement) : Place :=
  if builder.fosters && target.isOneOf ["table", "tbody", "tfoot", "thead", "tr"] then
    let inner := builder.opened.takeWhile fun element => !element.isOneOf ["table", "template"]
    match builder.opened.drop inner.length with
    | [] => .last 0
    | found :: outer =>
      if found.isHtml "template" then .last found.id
      else
        match builder.dom.parent? found.id with
        | some parent => .before parent found.id
        | none => .last (outer.head?.getD root).id
  else .last target.id

/-- Where something new goes. -/
def place (builder : Builder) : Place := builder.placeIn builder.current

/-- Adds text. -/
def addText (builder : Builder) (chars : List Char) : Builder :=
  if chars.isEmpty then builder
  else { builder with dom := builder.dom.addText builder.place (.ofList chars) }

/-- Whether HTML can stand in a foreign element. -/
def holdsHtml (element : Element) : Bool :=
  match element.space with
  | .html => false
  | .svg => svgTextNames.contains element.name
  | .mathml =>
    element.name == "annotation-xml" && element.attributes.any fun attr =>
      attr.name == "encoding" &&
        ["text/html", "application/xhtml+xml"].contains (attr.value.map Char.toLower)

/-- Adds an element and opens it. -/
def insertElement (builder : Builder) (element : Element) : Builder :=
  let (dom, id) := builder.dom.create (.element element)
  { builder with
    dom := dom.move id builder.place,
    opened := ⟨id, element.space, element.name, holdsHtml element⟩ :: builder.opened }

/-- Adds the element of a tag and opens it. -/
def insert (builder : Builder) (tag : StartTag) : Builder :=
  builder.insertElement ⟨.html, tag.name, tag.attributes⟩

/-- Adds an element without attributes and opens it. -/
def insertNamed (builder : Builder) (name : String) : Builder := builder.insert ⟨name, [], false⟩

/-- Adds an element that has no content. -/
def insertVoid (builder : Builder) (tag : StartTag) : Builder := (builder.insert tag).pop

/-- Adds a foreign element. It stays open unless a solidus ends its tag. -/
def insertForeign (builder : Builder) (space : Namespace) (tag : StartTag) : Builder :=
  let next := builder.insertElement
    ⟨space, foreignName space tag.name, tag.attributes.map (foreignAttribute space)⟩
  if tag.isClosed then next.pop else next

/-- Adds an element that holds text only. -/
def insertText (builder : Builder) (tag : StartTag) (textMode : TextMode) : Builder :=
  { builder.insert tag with textMode, returnMode := builder.mode, mode := .inText }

/-! ## Formatting -/

/-- Puts a marker on the list of formatting. -/
def mark (builder : Builder) : Builder := { builder with formatting := .marker :: builder.formatting }

/-- Drops the formatting since the last marker, and the marker. -/
def clearToMarker (builder : Builder) : Builder :=
  { builder with formatting := (builder.formatting.dropWhile fun entry =>
      match entry with
      | .marker => false
      | .element _ _ => true).drop 1 }

/-- Whether two tags open the same formatting. The order of attributes does not count. -/
def sameFormatting (a b : StartTag) : Bool :=
  a.name == b.name && a.attributes.length == b.attributes.length &&
    a.attributes.all fun attr => b.attributes.contains attr

/-- The list of formatting without the earliest of three entries like a tag. `count` is how many have been
met. -/
def dropThird (tag : StartTag) (count : Nat) : List Formatting → List Formatting
  | [] => []
  | .marker :: rest => .marker :: rest
  | .element id other :: rest =>
    if sameFormatting tag other then
      if count == 2 then rest else .element id other :: dropThird tag (count + 1) rest
    else .element id other :: dropThird tag count rest

/-- Adds the element of a tag, opens it, and lets its formatting go on. -/
def insertFormatting (builder : Builder) (tag : StartTag) : Builder :=
  let next := builder.insert tag
  { next with formatting := .element next.current.id tag :: dropThird tag 0 next.formatting }

/-- Opens elements again, the latest of which comes first, and gives their new entries. -/
def reopen (builder : Builder) : List Formatting → Builder × List Formatting
  | [] => (builder, [])
  | entry :: rest =>
    let (builder, entries) := reopen builder rest
    match entry with
    | .marker => (builder, entries)
    | .element _ tag =>
      let next := builder.insert tag
      (next, .element next.current.id tag :: entries)

/-- Opens the formatting again that goes on and whose elements were closed. -/
def reopenFormatting (builder : Builder) : Builder :=
  let isClosed (entry : Formatting) : Bool :=
    match entry with
    | .marker => false
    | .element id _ => !builder.opened.any (·.id == id)
  let closed := builder.formatting.takeWhile isClosed
  let (next, entries) := builder.reopen closed
  { next with formatting := entries ++ builder.formatting.drop closed.length }

/-- The formatting with a name since the last marker. -/
def findFormatting? (name : String) : List Formatting → Option (Nat × StartTag)
  | [] => none
  | .marker :: _ => none
  | .element id tag :: rest => if tag.name == name then some (id, tag) else findFormatting? name rest

/-- Forgets the formatting of an element. -/
def forgetFormatting (builder : Builder) (id : Nat) : Builder :=
  { builder with formatting := builder.formatting.filter fun entry => !entry.isElement id }

/-- Forgets that an element is open. -/
def forgetOpen (builder : Builder) (id : Nat) : Builder :=
  { builder with opened := builder.opened.filter fun element => element.id != id }

/-- Closes the elements up to the one that a closing tag names, if no special element stands in the way. -/
def closeOther (builder : Builder) (name : String) : Builder :=
  let rec scan : List OpenElement → Option Nat
    | [] => none
    | element :: rest =>
      if element.isHtml name then some element.id
      else if element.isSpecial then none
      else scan rest
  match scan builder.opened with
  | none => builder
  | some id =>
    let builder := builder.closeImplied [name]
    { builder with opened := dropThrough (·.id == id) builder.opened }

/-- The elements between a block and the formatting around it are made anew, so that the block can leave
the formatting. Gives the new state, the new elements that stay open, the last one made, and the entry
behind which the formatting of the block goes. `count` counts the elements. -/
def cloneBetween (builder : Builder) (count last : Nat) (bookmark : Option Nat) :
    List OpenElement → Builder × List OpenElement × Nat × Option Nat
  | [] => (builder, [], last, bookmark)
  | element :: rest =>
    let entry? := builder.formatting.findSome? fun entry =>
      match entry with
      | .marker => none
      | .element id tag => if id == element.id then some tag else none
    match entry? with
    | none => cloneBetween builder (count + 1) last bookmark rest
    | some tag =>
      if 3 < count then
        cloneBetween (builder.forgetFormatting element.id) (count + 1) last bookmark rest
      else
        let (dom, id) := builder.dom.create (.element ⟨.html, tag.name, tag.attributes⟩)
        let formatting := builder.formatting.map fun entry =>
          if entry.isElement element.id then .element id tag else entry
        let builder := { builder with dom := dom.move last (.last id), formatting }
        let (builder, elements, last, bookmark) :=
          cloneBetween builder (count + 1) id (bookmark.orElse fun _ => some id) rest
        (builder, { element with id } :: elements, last, bookmark)

/-- The list of formatting with the entry of an element replaced, or moved behind another entry. -/
def replaceFormatting (old : Nat) (bookmark : Option Nat) (entry : Formatting)
    (entries : List Formatting) : List Formatting :=
  match bookmark with
  | none => entries.map fun other => if other.isElement old then entry else other
  | some id =>
    (entries.filter fun other => !other.isElement old).flatMap fun other =>
      if other.isElement id then [entry, other] else [other]

/-- One round of closing formatting that blocks stand in: the innermost of its elements is closed, and the
block that stands in it leaves it. Tells whether another round may be needed. -/
def closeFormattingOnce (builder : Builder) (name : String) : Builder × Bool :=
  match findFormatting? name builder.formatting with
  | none => (builder.closeOther name, false)
  | some (id, tag) =>
    let inner := builder.opened.takeWhile fun element => element.id != id
    match builder.opened.drop inner.length with
    | [] => (builder.forgetFormatting id, false)
    | _ :: outer =>
      if !search (·.id == id) (isBarrier []) builder.opened then (builder, false)
      else
        match inner.reverse.span fun element => !element.isSpecial with
        | (_, []) => ({ builder.forgetFormatting id with opened := outer }, false)
        | (between, block :: innermost) =>
          let (builder, kept, last, bookmark) :=
            cloneBetween builder 1 block.id none between.reverse
          let ancestor := outer.head?.getD root
          let dom := builder.dom.move last (builder.placeIn ancestor)
          let (dom, clone) := dom.create (.element ⟨.html, tag.name, tag.attributes⟩)
          let dom := (dom.moveChildren block.id clone).move clone (.last block.id)
          let entry : Formatting := .element clone tag
          ({ builder with
              dom,
              formatting := replaceFormatting id bookmark entry builder.formatting,
              opened := innermost.reverse ++ ⟨clone, .html, tag.name, false⟩ :: block :: (kept ++ outer) },
            true)

/-- Rounds of closing formatting, eight at most. -/
def closeFormattingRounds (name : String) : Nat → Builder → Builder
  | 0, builder => builder
  | rounds + 1, builder =>
    let (builder, goesOn) := builder.closeFormattingOnce name
    if goesOn then closeFormattingRounds name rounds builder else builder

/-- Closes the formatting with a name. -/
def closeFormatting (builder : Builder) (name : String) : Builder :=
  let current := builder.current
  if current.isHtml name && !builder.formatting.any (·.isElement current.id) then builder.pop
  else closeFormattingRounds name 8 builder

/-! ## Modes -/

/-- The rules that the open elements ask for. The last one stands for the element around the markup. -/
def modeOf (templates : List Mode) : List OpenElement → Mode
  | [] => .inBody
  | [_] => .inBody
  | element :: rest =>
    if element.space != .html then modeOf templates rest
    else
      match element.name with
      | "td" | "th" => .inCell
      | "tr" => .inRow
      | "tbody" | "thead" | "tfoot" => .inTableBody
      | "caption" => .inCaption
      | "colgroup" => .inColumnGroup
      | "table" => .inTable
      | "template" => templates.head?.getD .inBody
      | _ => modeOf templates rest

/-- Puts the rules in force that the open elements ask for. -/
def resetMode (builder : Builder) : Builder :=
  { builder with mode := modeOf builder.templates builder.opened }

end Builder

end Galley.Html
