import Galley.Markdown.Event
import Galley.Text.Bytes
import Galley.Text.Escape
import Galley.Text.Table

/-!
# Markup of events

* `escapeAddress` — an address as it is written in an attribute;
* `Page` — the markup so far and what the next event has to know of it;
* `write` — the markup of some events.
-/

namespace Galley.Markdown

/-- Whether a byte stands for itself in an address. -/
def isAddressByte (b : UInt8) : Bool :=
  Text.isLetterByte b || (48 ≤ b && b ≤ 57) ||
    "!#$%()*+,-./:;=?@_~".toUTF8.data.contains b

/-- How a byte is written in an address. -/
def addressByte (b : UInt8) : List Char :=
  if isAddressByte b then [Char.ofNat b.toNat]
  else if b == 38 then "&amp;".toList
  else if b == 39 then "&#x27;".toList
  else '%' :: (Text.hexDigits b.toNat 2).map Char.toUpper

/-- An address as it is written in an attribute between double quotes. -/
def escapeAddress (address : String) : String :=
  .ofList ((Text.bytes address).toList.flatMap addressByte)

/-- The markup so far. -/
structure Page where
  /-- The markup. -/
  markup : String
  /-- Whether the markup is empty or ends with a line feed. -/
  atLineStart : Bool
  /-- The alignments of the table that is being written. -/
  columns : List Alignment
  /-- Whether its head is being written. -/
  inHead : Bool
  /-- How many cells its row has. -/
  cells : Nat
  /-- The image whose text is being written, and how many tags are open in it. -/
  image : Option (LinkTarget × Nat)

namespace Page

/-- A page without markup. -/
def empty : Page := ⟨"", true, [], false, 0, none⟩

/-- The page with more markup. -/
def add (page : Page) (markup : String) : Page :=
  if markup.isEmpty then page
  else
    { page with markup := page.markup ++ markup, atLineStart := markup.toList.getLast? == some '\n' }

/-- The page with more markup on a line of its own. -/
def addOnLine (page : Page) (markup : String) : Page :=
  page.add (if page.atLineStart then markup else "\n" ++ markup)

/-- The title attribute of a link or an image, if it has one. The quote of the attribute before it is
closed first. -/
def titleMarkup (target : LinkTarget) : String :=
  if target.title.isEmpty then "" else "\" title=\"" ++ Text.escapeAttribute target.title

/-- What the alignment of a column adds to its cells. -/
def alignmentMarkup : Option Alignment → String
  | some .left => " style=\"text-align: left\">"
  | some .center => " style=\"text-align: center\">"
  | some .right => " style=\"text-align: right\">"
  | _ => ">"

/-- The tag of a heading. -/
def headingMarkup (level : Nat) (id : Option String) : String :=
  "<h" ++ toString level ++
    (id.elim "" fun id => " id=\"" ++ Text.escapeAttribute id ++ "\"") ++ ">"

/-- The name of the cells of a table. -/
def cellName (page : Page) : String := if page.inHead then "th" else "td"

/-- The page with a tag opened. -/
def openTag (page : Page) : Tag → Page
  | .paragraph => page.addOnLine "<p>"
  | .heading level id => page.addOnLine (headingMarkup level id)
  | .blockQuote => page.addOnLine "<blockquote>\n"
  | .codeBlock _ => page.addOnLine "<pre><code>"
  | .list none => page.addOnLine "<ul>\n"
  | .list (some start) =>
    page.addOnLine (if start == 1 then "<ol>\n" else "<ol start=\"" ++ toString start ++ "\">\n")
  | .item => page.addOnLine "<li>"
  | .footnoteDefinition _ => page
  | .table columns => { page.add "<table>" with columns }
  | .tableHead => { page.add "<thead><tr>" with inHead := true, cells := 0 }
  | .tableRow => { page.add "<tr>" with cells := 0 }
  | .tableCell => page.add ("<" ++ page.cellName ++ alignmentMarkup page.columns[page.cells]?)
  | .emphasis => page.add "<em>"
  | .strong => page.add "<strong>"
  | .strikethrough => page.add "<del>"
  | .link mailbox target =>
    page.add ("<a href=\"" ++ (if mailbox then "mailto:" else "") ++
      escapeAddress target.destination ++ titleMarkup target ++ "\">")
  | .image target =>
    { page.add ("<img src=\"" ++ escapeAddress target.destination ++ "\" alt=\"") with
      image := some (target, 0) }

/-- The page with a tag closed. -/
def closeTag (page : Page) : Tag → Page
  | .paragraph => page.add "</p>\n"
  | .heading level _ => page.add ("</h" ++ toString level ++ ">\n")
  | .blockQuote => page.add "</blockquote>\n"
  | .codeBlock _ => page.add "</code></pre>\n"
  | .list none => page.add "</ul>\n"
  | .list (some _) => page.add "</ol>\n"
  | .item => page.add "</li>\n"
  | .footnoteDefinition _ => page
  | .table _ => page.add "</tbody></table>\n"
  | .tableHead => { page.add "</tr></thead><tbody>\n" with inHead := false }
  | .tableRow => page.add "</tr>\n"
  | .tableCell => { page.add ("</" ++ page.cellName ++ ">") with cells := page.cells + 1 }
  | .emphasis => page.add "</em>"
  | .strong => page.add "</strong>"
  | .strikethrough => page.add "</del>"
  | .link _ _ => page.add "</a>"
  | .image _ => page

/-- The page with an event in the text of an image, where there are no tags. -/
def addToImage (page : Page) (target : LinkTarget) (depth : Nat) : Event → Page
  | .start _ => { page with image := some (target, depth + 1) }
  | .stop _ =>
    if depth == 0 then { page with image := none }.add (titleMarkup target ++ "\" />")
    else { page with image := some (target, depth - 1) }
  | .html _ => page
  | .text text => page.add (Text.escapeAttribute text)
  | .code text => page.add (Text.escapeAttribute text)
  | .inlineHtml text => page.add (Text.escapeAttribute text)
  | .footnoteReference _ => page
  | .taskMarker isChecked => page.add (if isChecked then "[x]" else "[ ]")
  | .softBreak => page.add " "
  | .hardBreak => page.add " "
  | .rule => page.add " "

/-- The page with one more event. -/
def step (page : Page) (event : Event) : Page :=
  match page.image, event with
  | some (target, depth), event => page.addToImage target depth event
  | none, .start tag => page.openTag tag
  | none, .stop tag => page.closeTag tag
  | none, .text text => page.add (Text.escapeText text)
  | none, .code code => page.add ("<code>" ++ Text.escapeText code ++ "</code>")
  | none, .html markup => page.add markup
  | none, .inlineHtml markup => page.add markup
  | none, .softBreak => page.add "\n"
  | none, .hardBreak => page.add "<br />\n"
  | none, .rule => page.addOnLine "<hr />\n"
  | none, .footnoteReference _ => page
  | none, .taskMarker isChecked =>
    page.add (if isChecked then "<input disabled=\"\" type=\"checkbox\" checked=\"\"/>\n"
      else "<input disabled=\"\" type=\"checkbox\"/>\n")

end Page

/-- The markup of some events. -/
def write (events : List Event) : String := (events.foldl Page.step .empty).markup

end Galley.Markdown
