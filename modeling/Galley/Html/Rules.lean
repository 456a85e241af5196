import Galley.Html.Builder

/-!
# The rules of building

What each token does under the rules in force. A token that belongs elsewhere is handled again once the
state has changed; `again` does that.

* `inHead`, `inBody`, `inText` — elements and text;
* `inTable` and the rules for its parts;
* `inForeign` — pictures and formulas;
* `step` — handles one token.
-/

namespace Galley.Html

namespace Builder

/-- Handles a token again under other rules. -/
abbrev Again := Builder → Token → Builder

/-- An opening tag that belongs into the head of a page. -/
def startInHead (builder : Builder) (tag : StartTag) : Builder :=
  if tag.name == "title" then builder.insertText tag (.replaceable "title")
  else if tag.name == "noframes" || tag.name == "style" then builder.insertText tag (.raw tag.name)
  else if tag.name == "script" then builder.insertText tag .script
  else if tag.name == "template" then
    let next := builder.mark.insert tag
    { next with mode := .inTemplate, templates := .inTemplate :: next.templates }
  else builder.insertVoid tag

/-- The closing tag of a template. -/
def stopTemplate (builder : Builder) : Builder :=
  if builder.isOpen "template" then
    let opened := builder.opened.dropWhile (·.isOneOf templateEnds)
    let next := ({ builder with opened }.popThrough ["template"]).clearToMarker
    { next with templates := next.templates.drop 1 }.resetMode
  else builder

/-! ## Among text and blocks -/

/-- Closes the item before an item, where an item with one of some names is open. -/
def endItem (builder : Builder) (names : List String) : Builder :=
  let rec scan : List OpenElement → Option String
    | [] => none
    | element :: rest =>
      if element.isOneOf names then some element.name
      else if element.isSpecial && !element.isOneOf ["address", "div", "p"] then none
      else scan rest
  match scan builder.opened with
  | some name => (builder.closeImplied [name]).popThrough [name]
  | none => builder

/-- An opening tag of something that goes in the line. -/
def insertInLine (builder : Builder) (tag : StartTag) : Builder := builder.reopenFormatting.insert tag

/-- An opening tag of an option or a group of options. -/
def startOption (builder : Builder) (tag : StartTag) : Builder :=
  let ended :=
    if builder.inScope ["select"] then
      builder.closeImplied (if tag.name == "option" then ["optgroup"] else [])
    else if builder.current.isHtml "option" then builder.pop
    else builder
  ended.insertInLine tag

/-- An opening tag of a link. A link does not stand in another one. -/
def startLink (builder : Builder) (tag : StartTag) : Builder :=
  let ended :=
    match findFormatting? "a" builder.formatting with
    | none => builder
    | some (id, _) => ((builder.closeFormatting "a").forgetFormatting id).forgetOpen id
  ended.reopenFormatting.insertFormatting tag

/-- An opening tag that no other rule names. -/
def startInLine (again : Again) (builder : Builder) (tag : StartTag) : Builder :=
  match tag.name with
  | "a" => builder.startLink tag
  | "nobr" =>
    let next := builder.reopenFormatting
    let ended := if next.inScope ["nobr"] then (next.closeFormatting "nobr").reopenFormatting else next
    ended.insertFormatting tag
  | "button" =>
    let ended :=
      if builder.inScope ["button"] then (builder.closeImplied []).popThrough ["button"] else builder
    ended.insertInLine tag
  | "applet" | "marquee" | "object" => (builder.insertInLine tag).mark
  | "area" | "br" | "embed" | "img" | "keygen" | "wbr" => (builder.insertInLine tag).pop
  | "input" =>
    let ended := if builder.inScope ["select"] then builder.popThrough ["select"] else builder
    (ended.insertInLine tag).pop
  | "image" => again builder (.start { tag with name := "img" })
  | "param" | "source" | "track" => builder.insertVoid tag
  | "textarea" =>
    { builder.insertText tag (.replaceable "textarea") with skipsBreak := true }
  | "iframe" | "noembed" | "noscript" => builder.insertText tag (.raw tag.name)
  | "select" =>
    if builder.inScope ["select"] then builder.popThrough ["select"] else builder.insertInLine tag
  | "option" | "optgroup" => builder.startOption tag
  | "rb" | "rtc" =>
    (if builder.inScope ["ruby"] then builder.closeImplied [] else builder).insert tag
  | "rp" | "rt" =>
    (if builder.inScope ["ruby"] then builder.closeImplied ["rtc"] else builder).insert tag
  | "math" => builder.reopenFormatting.insertForeign .mathml tag
  | "svg" => builder.reopenFormatting.insertForeign .svg tag
  | _ => builder.insertInLine tag

/-- An opening tag of a block. -/
def startBlock (again : Again) (builder : Builder) (tag : StartTag) : Builder :=
  match tag.name with
  | "h1" | "h2" | "h3" | "h4" | "h5" | "h6" =>
    let ended := builder.endParagraph
    (if ended.current.isOneOf headingNames then ended.pop else ended).insert tag
  | "pre" | "listing" => { builder.endParagraph.insert tag with skipsBreak := true }
  | "form" =>
    let inTemplate := builder.isOpen "template"
    if builder.form.isSome && !inTemplate then builder
    else
      let next := builder.endParagraph.insert tag
      if inTemplate then next else { next with form := some next.current.id }
  | "li" => (builder.endItem ["li"]).endParagraph.insert tag
  | "dd" | "dt" => (builder.endItem ["dd", "dt"]).endParagraph.insert tag
  | "plaintext" => { builder.endParagraph.insert tag with textMode := .plain }
  | "table" => { builder.endParagraph.insert tag with mode := .inTable }
  | "hr" =>
    let ended := builder.endParagraph
    (if ended.inScope ["select"] then ended.closeImplied [] else ended).insertVoid tag
  | "xmp" => builder.endParagraph.reopenFormatting.insertText tag (.raw "xmp")
  | _ => builder.startInLine again tag

/-- Tags that mean nothing among text and blocks. -/
def ignoredStarts : List String := ["html", "body", "frameset", "frame", "head"] ++ tableParts

/-- An opening tag among text and blocks. -/
def startInBody (again : Again) (builder : Builder) (tag : StartTag) : Builder :=
  if ignoredStarts.contains tag.name then builder
  else if headNames.contains tag.name then builder.startInHead tag
  else if blockNames.contains tag.name then builder.endParagraph.insert tag
  else if formattingNames.contains tag.name then builder.reopenFormatting.insertFormatting tag
  else builder.startBlock again tag

/-- The closing tag of a form. -/
def stopForm (builder : Builder) : Builder :=
  if builder.isOpen "template" then
    if builder.inScope ["form"] then (builder.closeImplied []).popThrough ["form"] else builder
  else
    let next := { builder with form := none }
    match builder.form with
    | none => next
    | some id =>
      if search (·.id == id) (isBarrier []) next.opened then (next.closeImplied []).forgetOpen id
      else next

/-- A closing tag among text and blocks. -/
def stopInBody (again : Again) (builder : Builder) (name : String) : Builder :=
  if name == "template" then builder.stopTemplate
  else if name == "body" || name == "html" then builder
  else if name == "form" then builder.stopForm
  else if name == "p" then
    (if builder.inButtonScope "p" then builder else builder.insertNamed "p").closeParagraph
  else if blockNames.contains name || ["button", "listing", "pre", "select"].contains name then
    if builder.inScope [name] then (builder.closeImplied []).popThrough [name] else builder
  else if name == "li" then
    if builder.inListScope "li" then (builder.closeImplied ["li"]).popThrough ["li"] else builder
  else if name == "dd" || name == "dt" then
    if builder.inScope [name] then (builder.closeImplied [name]).popThrough [name] else builder
  else if headingNames.contains name then
    if builder.inScope headingNames then (builder.closeImplied []).popThrough headingNames else builder
  else if name == "a" || name == "nobr" || formattingNames.contains name then
    builder.closeFormatting name
  else if name == "applet" || name == "marquee" || name == "object" then
    if builder.inScope [name] then ((builder.closeImplied []).popThrough [name]).clearToMarker
    else builder
  else if name == "br" then again builder (.start ⟨"br", [], false⟩)
  else builder.closeOther name

/-- The rules among text and blocks. -/
def inBody (again : Again) (builder : Builder) : Token → Builder
  | .start tag => builder.startInBody again tag
  | .stop name => builder.stopInBody again name
  | .text chars => builder.reopenFormatting.addText chars
  | .null => builder
  | .comment => builder

/-- The rules in an element that holds text only. -/
def inText (builder : Builder) : Token → Builder
  | .text chars => builder.addText chars
  | .stop _ => { builder.pop with mode := builder.returnMode }
  | _ => builder

/-! ## Tables -/

/-- What cannot stand in a table goes in front of it. -/
def foster (again : Again) (builder : Builder) (token : Token) : Builder :=
  { inBody again { builder with fosters := true } token with fosters := builder.fosters }

/-- Opens a part of a table and puts its rules in force. -/
def startPart (builder : Builder) (around : List String) (tag : StartTag) (mode : Mode) : Builder :=
  { (builder.popTo around).insert tag with mode }

/-- An opening tag in a table. -/
def startInTable (again : Again) (builder : Builder) (tag : StartTag) : Builder :=
  let within (name : String) (mode : Mode) : Builder :=
    again (builder.startPart ["table", "template"] ⟨name, [], false⟩ mode) (.start tag)
  match tag.name with
  | "caption" => ({ builder.popTo ["table", "template"] with mode := .inCaption }.mark).insert tag
  | "colgroup" => builder.startPart ["table", "template"] tag .inColumnGroup
  | "col" => within "colgroup" .inColumnGroup
  | "tbody" | "tfoot" | "thead" => builder.startPart ["table", "template"] tag .inTableBody
  | "td" | "th" | "tr" => within "tbody" .inTableBody
  | "table" =>
    if builder.inTableScope ["table"] then
      again (builder.popThrough ["table"]).resetMode (.start tag)
    else builder
  | "style" | "script" | "template" => builder.startInHead tag
  | "input" =>
    let isHidden := tag.attributes.any fun attr =>
      attr.name == "type" && attr.value.map Char.toLower == "hidden"
    if isHidden then builder.insertVoid tag else foster again builder (.start tag)
  | "form" =>
    if builder.form.isSome || builder.isOpen "template" then builder
    else
      let next := builder.insert tag
      { next with form := some next.current.id }.pop
  | _ => foster again builder (.start tag)

/-- Text in a table is gathered before it is placed. -/
def textInTable (again : Again) (builder : Builder) (token : Token) : Builder :=
  if builder.current.isOneOf ["table", "tbody", "template", "tfoot", "thead", "tr"] then
    again { builder with tableText := [], returnMode := builder.mode, mode := .inTableText } token
  else foster again builder token

/-- The rules in a table. -/
def inTable (again : Again) (builder : Builder) (token : Token) : Builder :=
  match token with
  | .text _ => textInTable again builder token
  | .null => textInTable again builder token
  | .comment => builder
  | .start tag => startInTable again builder tag
  | .stop name =>
    if name == "table" then
      if builder.inTableScope ["table"] then (builder.popThrough ["table"]).resetMode else builder
    else if name == "body" || name == "html" || tableParts.contains name then builder
    else if name == "template" then builder.stopTemplate
    else foster again builder token

/-- The rules in text that stands in a table. Blanks stay there, other text goes in front of it. -/
def inTableText (again : Again) (builder : Builder) (token : Token) : Builder :=
  match token with
  | .text chars => { builder with tableText := builder.tableText ++ chars }
  | .null => builder
  | _ =>
    let next := { builder with mode := builder.returnMode, tableText := [] }
    let placed :=
      if builder.tableText.all isSpace then next.addText builder.tableText
      else foster again next (.text builder.tableText)
    again placed token

/-- Handles a token again after an end. Without one the token means nothing. -/
def leave (again : Again) (builder : Builder) (ended? : Option Builder) (token : Token) : Builder :=
  match ended? with
  | some next => again next token
  | none => builder

/-- Closes a caption, if one is open. -/
def endCaption? (builder : Builder) : Option Builder :=
  if builder.inTableScope ["caption"] then
    let next := ((builder.closeImplied []).popThrough ["caption"]).clearToMarker
    some { next with mode := .inTable }
  else none

/-- The rules in a caption. -/
def inCaption (again : Again) (builder : Builder) (token : Token) : Builder :=
  match token with
  | .start tag =>
    if tableParts.contains tag.name then leave again builder builder.endCaption? token
    else inBody again builder token
  | .stop name =>
    if name == "caption" then builder.endCaption?.getD builder
    else if name == "table" then leave again builder builder.endCaption? token
    else if name == "body" || name == "html" || tableParts.contains name then builder
    else inBody again builder token
  | _ => inBody again builder token

/-- Closes a group of columns, if it is the innermost element. -/
def endColumnGroup? (builder : Builder) : Option Builder :=
  if builder.current.isHtml "colgroup" then some { builder.pop with mode := .inTable } else none

/-- The rules in a group of columns. -/
def inColumnGroup (again : Again) (builder : Builder) (token : Token) : Builder :=
  match token with
  | .text chars =>
    if chars.all isSpace then builder.addText chars
    else leave again builder builder.endColumnGroup? token
  | .comment => builder
  | .null => leave again builder builder.endColumnGroup? token
  | .start tag =>
    if tag.name == "html" then builder
    else if tag.name == "col" then builder.insertVoid tag
    else if tag.name == "template" then builder.startInHead tag
    else leave again builder builder.endColumnGroup? token
  | .stop name =>
    if name == "colgroup" then builder.endColumnGroup?.getD builder
    else if name == "col" then builder
    else if name == "template" then builder.stopTemplate
    else leave again builder builder.endColumnGroup? token

/-- The groups of rows. -/
def rowGroups : List String := ["tbody", "tfoot", "thead"]

/-- Closes a group of rows, if one is open. -/
def endRowGroup? (builder : Builder) : Option Builder :=
  if builder.inTableScope rowGroups then
    some { (builder.popTo ("template" :: rowGroups)).pop with mode := .inTable }
  else none

/-- The rules in a group of rows. -/
def inTableBody (again : Again) (builder : Builder) (token : Token) : Builder :=
  let around := "template" :: rowGroups
  match token with
  | .start tag =>
    if tag.name == "tr" then builder.startPart around tag .inRow
    else if tag.name == "td" || tag.name == "th" then
      again (builder.startPart around ⟨"tr", [], false⟩ .inRow) token
    else if tableParts.contains tag.name then leave again builder builder.endRowGroup? token
    else inTable again builder token
  | .stop name =>
    if rowGroups.contains name then
      if builder.inTableScope [name] then { (builder.popTo around).pop with mode := .inTable }
      else builder
    else if name == "table" then leave again builder builder.endRowGroup? token
    else if name == "body" || name == "html" || tableParts.contains name then builder
    else inTable again builder token
  | _ => inTable again builder token

/-- Closes a row, if one is open. -/
def endRow? (builder : Builder) : Option Builder :=
  if builder.inTableScope ["tr"] then
    some { (builder.popTo ["tr", "template"]).pop with mode := .inTableBody }
  else none

/-- The rules in a row. -/
def inRow (again : Again) (builder : Builder) (token : Token) : Builder :=
  match token with
  | .start tag =>
    if tag.name == "td" || tag.name == "th" then
      (builder.startPart ["tr", "template"] tag .inCell).mark
    else if tableParts.contains tag.name then leave again builder builder.endRow? token
    else inTable again builder token
  | .stop name =>
    if name == "tr" then builder.endRow?.getD builder
    else if name == "table" then leave again builder builder.endRow? token
    else if rowGroups.contains name then
      if builder.inTableScope [name] then leave again builder builder.endRow? token else builder
    else if name == "body" || name == "html" || tableParts.contains name then builder
    else inTable again builder token
  | _ => inTable again builder token

/-- Closes a cell. -/
def closeCell (builder : Builder) (names : List String) : Builder :=
  let next := ((builder.closeImplied []).popThrough names).clearToMarker
  { next with mode := .inRow }

/-- The rules in a cell. -/
def inCell (again : Again) (builder : Builder) (token : Token) : Builder :=
  let cells := ["td", "th"]
  match token with
  | .start tag =>
    if tableParts.contains tag.name then
      if builder.inTableScope cells then again (builder.closeCell cells) token else builder
    else inBody again builder token
  | .stop name =>
    if cells.contains name then
      if builder.inTableScope [name] then builder.closeCell [name] else builder
    else if ["body", "caption", "col", "colgroup", "html"].contains name then builder
    else if name == "table" || name == "tr" || rowGroups.contains name then
      if builder.inTableScope [name] then again (builder.closeCell cells) token else builder
    else inBody again builder token
  | _ => inBody again builder token

/-! ## Templates and foreign content -/

/-- The rules that an opening tag puts in force in a template. -/
def templateMode (name : String) : Mode :=
  if name == "col" then .inColumnGroup
  else if name == "tr" then .inTableBody
  else if name == "td" || name == "th" then .inRow
  else if tableParts.contains name then .inTable
  else .inBody

/-- The rules in a template. -/
def inTemplate (again : Again) (builder : Builder) (token : Token) : Builder :=
  match token with
  | .start tag =>
    if headNames.contains tag.name then builder.startInHead tag
    else
      let mode := templateMode tag.name
      again { builder with templates := mode :: builder.templates.drop 1, mode } token
  | .stop name => if name == "template" then builder.stopTemplate else builder
  | _ => inBody again builder token

/-- Whether a tag ends foreign content. -/
def breaksOut (tag : StartTag) : Bool :=
  breakoutNames.contains tag.name ||
    (tag.name == "font" && tag.attributes.any fun attr =>
      ["color", "face", "size"].contains attr.name)

/-- Closes foreign elements in which HTML cannot stand. -/
def leaveForeign (builder : Builder) : Builder :=
  { builder with opened := builder.opened.dropWhile fun element =>
      !(element.space == .html || element.holdsHtml ||
        (element.space == .mathml && mathTextNames.contains element.name)) }

/-- A closing tag in foreign content: case does not count, and an element of HTML is closed under its own
rules. -/
def stopForeign (again : Again) (builder : Builder) (name : String) : Builder :=
  let rec scan : List OpenElement → Option Nat
    | [] => none
    | element :: rest =>
      if element.space == .html then none
      else if element.name.map Char.toLower == name then some element.id
      else scan rest
  match scan builder.opened with
  | some id => { builder with opened := dropThrough (·.id == id) builder.opened }
  | none => again builder (.stop name)

/-- The rules in foreign content. `again` handles a token under all rules, and `asHtml` under those for
HTML. -/
def inForeign (again asHtml : Again) (builder : Builder) : Token → Builder
  | .text chars => builder.addText chars
  | .null => builder.addText ['\ufffd']
  | .comment => builder
  | .start tag =>
    if breaksOut tag then again builder.leaveForeign (.start tag)
    else builder.insertForeign builder.current.space tag
  | .stop name =>
    if name == "br" || name == "p" then again builder.leaveForeign (.stop name)
    else stopForeign asHtml builder name

/-- Whether a token falls under the rules for foreign content. -/
def isForeign (current : OpenElement) (token : Token) : Bool :=
  if current.space == .html then false
  else
    let isMathText := current.space == .mathml && mathTextNames.contains current.name
    match token with
    | .start tag =>
      !(current.holdsHtml ||
        (isMathText && tag.name != "mglyph" && tag.name != "malignmark") ||
        (current.space == .mathml && current.name == "annotation-xml" && tag.name == "svg"))
    | .text _ => !(current.holdsHtml || isMathText)
    | .null => !(current.holdsHtml || isMathText)
    | _ => true

/-- Handles a token under the rules in force for HTML. -/
def byMode (again : Again) (builder : Builder) (token : Token) : Builder :=
  match builder.mode with
  | .inBody => inBody again builder token
  | .inText => inText builder token
  | .inTable => inTable again builder token
  | .inTableText => inTableText again builder token
  | .inCaption => inCaption again builder token
  | .inColumnGroup => inColumnGroup again builder token
  | .inTableBody => inTableBody again builder token
  | .inRow => inRow again builder token
  | .inCell => inCell again builder token
  | .inTemplate => inTemplate again builder token

/-- Handles a token. `fuel` bounds how often it is handled again. -/
def handle : (fuel : Nat) → Builder → Token → Builder
  | 0, builder, _ => builder
  | fuel + 1, builder, token =>
    if isForeign builder.current token then
      inForeign (handle fuel) (byMode (handle fuel)) builder token
    else byMode (handle fuel) builder token

/-- No token is handled again more often. -/
def maxRounds : Nat := 64

/-- Handles a token of the markup. A line feed that is left out is dropped from it first. -/
def step (builder : Builder) (token : Token) : Builder :=
  let next := { builder with skipsBreak := false }
  match token with
  | .text ('\n' :: rest) =>
    if builder.skipsBreak then
      if rest.isEmpty then next else handle maxRounds next (.text rest)
    else handle maxRounds next token
  | _ => handle maxRounds next token

end Builder

/-- Reads markup into a tree, token by token, as long as there is less and less left of it. -/
def build (builder : Builder) (cs : List Char) : Builder :=
  let isForeign := builder.current.space != .html
  match nextToken? builder.textMode isForeign cs with
  | none => builder
  | some (token, rest) =>
    let textMode := match builder.textMode, token with
      | .plain, _ => .plain
      | _, .stop _ => .markup
      | mode, _ => mode
    let next := { builder with textMode }.step token
    if rest.length < cs.length then build next rest else next
termination_by cs.length

/-- The trees of a piece of markup, read as the content of a block. The comment at the end puts text into
its place that still waits in a table. -/
def parseFragment (markup : String) : List Node :=
  ((build .empty (normalizeBreaks markup.toList)).step .comment).dom.content

end Galley.Html
