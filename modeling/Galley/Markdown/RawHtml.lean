import Galley.Markdown.Margin

/-!
# Raw HTML

Markup that a document may hold as it is, in the line or as a block.

* `tag?` — an opening or closing tag;
* `inlineMarkup?` — a tag, a comment, a processing instruction, a declaration or a CDATA section;
* `autolink?` — an address between angle brackets;
* `blockEnd?`, `opensBlock` — the starts of blocks of markup.

The readers that give a text give what is left after what they have read.
-/

namespace Galley.Markdown.RawHtml

/-- The text after blanks, and after line breaks where `multiline` allows them. Nothing if a line break
is not allowed. -/
def dropBlanks? (multiline : Bool) : List Char → Option (List Char)
  | [] => some []
  | c :: rest =>
    if isSpace c then dropBlanks? multiline rest
    else if isBreak c then if multiline then dropBlanks? multiline rest else none
    else some (c :: rest)

/-- Whether a character can begin the name of an attribute. -/
def isNameStart (c : Char) : Bool := c.isAlpha || c == '_' || c == ':'

/-- Whether a character can stand in the name of an attribute. -/
def isNameChar (c : Char) : Bool := c.isAlphanum || c == '_' || c == '.' || c == ':' || c == '-'

/-- Whether a character can stand in an attribute value without quotes. -/
def isValueChar (c : Char) : Bool :=
  !(isSpaceOrBreak c || c == '\x22' || c == '\x27' || c == '=' || c == '>' || c == '<' || c == '\x60')

/-- The text after the closing quote. -/
def dropQuoted? (multiline : Bool) (quote : Char) : List Char → Option (List Char)
  | [] => none
  | c :: rest =>
    if c == quote then some rest
    else if isBreak c && !multiline then none
    else dropQuoted? multiline quote rest

/-- The text after an attribute value. -/
def dropValue? (multiline : Bool) : List Char → Option (List Char)
  | [] => none
  | c :: rest =>
    if c == '\x22' || c == '\x27' then dropQuoted? multiline c rest
    else if isSpaceOrBreak c || c == '=' || c == '>' || c == '<' || c == '\x60' then none
    else some ((c :: rest).dropWhile isValueChar)

/-- The text after an attribute. -/
def dropAttribute? (multiline : Bool) : List Char → Option (List Char)
  | [] => none
  | c :: rest =>
    if isNameStart c then do
      let after := rest.dropWhile isNameChar
      match ← dropBlanks? multiline after with
      | '=' :: value => dropValue? multiline (← dropBlanks? multiline value)
      | _ => some after
    else none

/-- The text after the end of a tag. -/
def dropTagEnd? : List Char → Option (List Char)
  | '/' :: '>' :: rest => some rest
  | '>' :: rest => some rest
  | _ => none

/-- The text after attributes and the end of the tag. A blank stands before each attribute. `fuel` bounds
their number. -/
def dropAttributes? (multiline : Bool) : Nat → List Char → Option (List Char)
  | 0, _ => none
  | fuel + 1, cs => do
    match ← dropBlanks? multiline cs with
    | [] => none
    | '/' :: rest => dropTagEnd? ('/' :: rest)
    | '>' :: rest => some rest
    | c :: rest =>
      if cs.length == rest.length + 1 then none
      else dropAttributes? multiline fuel (← dropAttribute? multiline (c :: rest))

/-- Whether a character can stand in the name of a tag. -/
def isTagChar (c : Char) : Bool := c.isAlphanum || c == '-'

/-- The text after a tag. The text begins after the opening bracket. -/
def tag? (multiline : Bool) : List Char → Option (List Char)
  | '/' :: c :: rest =>
    if c.isAlpha then
      match (rest.dropWhile isTagChar).dropWhile isSpace with
      | '>' :: after => some after
      | _ => none
    else none
  | c :: rest =>
    if c.isAlpha then
      dropAttributes? multiline (rest.length + 1) (rest.dropWhile isTagChar)
    else none
  | [] => none

/-- The text after the first place where another text stands. -/
def dropThrough? (stop : List Char) : List Char → Option (List Char)
  | [] => if stop.isEmpty then some [] else none
  | c :: rest =>
    match stop.isPrefixOf? (c :: rest) with
    | some after => some after
    | none => dropThrough? stop rest

/-- The text after a comment, a processing instruction, a declaration or a CDATA section. The text begins
after the opening bracket. -/
def special? (cs : List Char) : Option (List Char) :=
  match cs with
  | '?' :: rest => dropThrough? ['?', '>'] rest
  | '!' :: '-' :: '-' :: rest =>
    match rest with
    | '>' :: after => some after
    | '-' :: '>' :: after => some after
    | _ => dropThrough? ['-', '-', '>'] rest
  | '!' :: rest =>
    match ("[CDATA[".toList).isPrefixOf? rest with
    | some section_ => dropThrough? [']', ']', '>'] section_
    | none =>
      match rest with
      | c :: after => if c.isAlpha then dropThrough? ['>'] after else none
      | [] => none
  | _ => none

/-- Whether a character can stand before the at sign of a mailbox. -/
def isMailboxChar (c : Char) : Bool :=
  c.isAlphanum || ".!#$%&'*+/=?^_\x60\x7b|\x7d~-".toList.contains c

/-- The text after the labels of a host name. A label has at most 63 characters, and no hyphen at its
ends. `fuel` bounds the number of labels. -/
def dropHost? : Nat → List Char → Option (List Char)
  | 0, _ => none
  | fuel + 1, cs =>
    let label := cs.takeWhile isTagChar
    if label.isEmpty || 63 < label.length || label.head? == some '-' || label.getLast? == some '-' then none
    else
      match cs.drop label.length with
      | '.' :: rest => dropHost? fuel rest
      | rest => some rest

/-- The mailbox that a text begins with, up to the closing bracket, and the text after that. -/
def mailbox? (cs : List Char) : Option (List Char × List Char) :=
  let user := cs.takeWhile isMailboxChar
  match user, cs.drop user.length with
  | _ :: _, '@' :: host => do
    match ← dropHost? (host.length + 1) host with
    | '>' :: rest => some (cs.take (cs.length - rest.length - 1), rest)
    | _ => none
  | _, _ => none

/-- The address with a scheme that a text begins with, up to the closing bracket, and the text after
that. A scheme has 2 to 32 characters. -/
def address? (cs : List Char) : Option (List Char × List Char) :=
  let scheme := cs.takeWhile fun c => c.isAlphanum || c == '.' || c == '-' || c == '+'
  if (cs.head?.any Char.isAlpha) && 2 ≤ scheme.length && scheme.length ≤ 32 then
    match cs.drop scheme.length with
    | ':' :: rest =>
      let path := rest.takeWhile fun c => !(c.toNat ≤ 32 || c == '<' || c == '>')
      match rest.drop path.length with
      | '>' :: after => some (scheme ++ ':' :: path, after)
      | _ => none
    | _ => none
  else none

/-- An address between angle brackets, whether it is a mailbox, and the text after it. The text begins
after the opening bracket. -/
def autolink? (cs : List Char) : Option (List Char × Bool × List Char) :=
  match address? cs with
  | some (address, rest) => some (address, false, rest)
  | none => (mailbox? cs).map fun (address, rest) => (address, true, rest)

/-- The tags whose content is taken as it is up to their closing tag. -/
def verbatimTags : List (String × String) :=
  [("pre", "</pre>"), ("style", "</style>"), ("script", "</script>"), ("textarea", "</textarea>")]

/-- Marks and the marks that end what they begin. -/
def specialMarks : List (String × String) := [("!--", "-->"), ("?", "?>"), ("![CDATA[", "]]>")]

/-- Whether a text begins with a tag name, case aside, and the name ends there. -/
def namesTag (cs : List Char) (name : String) : Bool :=
  (cs.take name.length).map Char.toLower == name.toList &&
    match cs.drop name.length with
    | [] => true
    | c :: _ => isSpaceOrBreak c || c == '>'

/-- What ends a block of markup that does not end with a blank line. The text begins after the opening
bracket. -/
def blockEnd? (cs : List Char) : Option String :=
  match verbatimTags.find? fun (name, _) => namesTag cs name with
  | some (_, stop) => some stop
  | none =>
    match specialMarks.find? fun (mark, _) => mark.toList.isPrefixOf cs with
    | some (_, stop) => some stop
    | none =>
      match cs with
      | '!' :: c :: _ => if c.isAlpha then some ">" else none
      | _ => none

/-- The tags that begin a block wherever they stand first on a line. -/
def blockTags : List String :=
  ["address", "article", "aside", "base", "basefont", "blockquote", "body", "caption", "center", "col",
   "colgroup", "dd", "details", "dialog", "dir", "div", "dl", "dt", "fieldset", "figcaption", "figure",
   "footer", "form", "frame", "frameset", "h1", "h2", "h3", "h4", "h5", "h6", "head", "header", "hr",
   "html", "iframe", "legend", "li", "link", "main", "menu", "menuitem", "nav", "noframes", "ol",
   "optgroup", "option", "p", "param", "search", "section", "summary", "table", "tbody", "td", "tfoot",
   "th", "thead", "title", "tr", "track", "ul"]

/-- Whether a text begins with a tag that begins a block. The text begins after the opening bracket. -/
def opensBlock (cs : List Char) : Bool :=
  let body := match cs with
    | '/' :: rest => rest
    | _ => cs
  let name := body.takeWhile Char.isAlphanum
  blockTags.contains (String.ofList (name.map Char.toLower)) &&
    match body.drop name.length with
    | [] => true
    | '/' :: '>' :: _ => true
    | c :: _ => c == ' ' || c == '\t' || isBreak c || c == '>'

end Galley.Markdown.RawHtml
