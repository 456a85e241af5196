import Galley.Html.Node
import Galley.Text.Blank
import Galley.Text.Reference

/-!
# Tokens of markup

Markup is read as tags and stretches of text. What text looks like depends on the element it stands in.

* `Token` — a tag or a stretch of text;
* `TextMode` — how text is read;
* `reference` — character references, which may lack their semicolon;
* `startTag?` — tags;
* `nextToken?` — the token that markup begins with.
-/

namespace Galley.Html

/-- An opening tag. -/
structure StartTag where
  /-- The name, in lower case. -/
  name : String
  /-- The attributes. Of those with the same name only the first is there. -/
  attributes : List Attribute
  /-- Whether a solidus stands at its end. -/
  isClosed : Bool
  deriving Repr, DecidableEq

/-- A piece of markup. -/
inductive Token where
  /-- An opening tag. -/
  | start (tag : StartTag)
  /-- A closing tag. -/
  | stop (name : String)
  /-- Text: only blanks, or no blanks at its start. -/
  | text (chars : List Char)
  /-- The character with the number zero. -/
  | null
  /-- A comment, or something else that is no content. -/
  | comment
  deriving Repr, DecidableEq

/-- How text is read. -/
inductive TextMode where
  /-- As markup. -/
  | markup
  /-- Up to a closing tag, with references. -/
  | replaceable (name : String)
  /-- Up to a closing tag, as it is. -/
  | raw (name : String)
  /-- As a program. -/
  | script
  /-- To the end. -/
  | plain
  deriving Repr, DecidableEq

/-- The blanks of markup. -/
def isSpace (c : Char) : Bool :=
  c == ' ' || c == '\t' || c == '\n' || c == '\x0c' || c == '\r'

/-- Text with every line break as a line feed. -/
def normalizeBreaks : List Char → List Char
  | [] => []
  | '\r' :: '\n' :: rest => '\n' :: normalizeBreaks rest
  | '\r' :: rest => '\n' :: normalizeBreaks rest
  | c :: rest => c :: normalizeBreaks rest

/-! ## References -/

/-- What the numbers 0x80 to 0x9f stand for where they are not meant as control characters. -/
def windowsChars : List Char :=
  "€\x81‚ƒ„…†‡ˆ‰Š‹Œ\x8dŽ\x8f\x90‘’“”•–—˜™š›œ\x9džŸ".toList

/-- The character that a number stands for. -/
def charOfReference (n : Nat) : Char :=
  if n == 0 || !Text.isScalar n then '\ufffd'
  else if 0x80 ≤ n && n < 0xa0 then (windowsChars[n - 0x80]?).getD (Char.ofNat n)
  else Char.ofNat n

/-- A reference by number, and the text after it. The text begins with the digits. -/
def numberReference? (isDigit : Char → Bool) (value : List Char → Nat) (cs : List Char) :
    Option (List Char × List Char) :=
  let digits := cs.takeWhile isDigit
  if digits.isEmpty then none
  else
    let rest := match cs.drop digits.length with
      | ';' :: rest => rest
      | rest => rest
    some ([charOfReference (value digits)], rest)

/-- The longest name in a reference, and the text after it. `length` bounds the name. In an attribute a
name without semicolon does not count if a letter, a digit or an equals sign follows. -/
def nameReference? (inAttribute : Bool) (cs : List Char) : Nat → Option (List Char × List Char)
  | 0 => none
  | length + 1 =>
    let name := cs.take (length + 1)
    match Text.named? name, cs.drop (length + 1) with
    | some found, ';' :: rest => some (found.chars, rest)
    | some found, rest =>
      if !found.bare then nameReference? inAttribute cs length
      else if inAttribute && rest.head?.any (fun c => c == '=' || c.isAlphanum) then none
      else some (found.chars, rest)
    | none, _ => nameReference? inAttribute cs length

/-- No name in a reference is longer. -/
def maxNameLength : Nat := 40

/-- What an ampersand and the text after it stand for, and the text after that. -/
def reference (inAttribute : Bool) (cs : List Char) : List Char × List Char :=
  let isHexDigit (c : Char) : Bool := (Text.hexValue? c).isSome
  let found := match cs with
    | '#' :: 'x' :: rest => numberReference? isHexDigit Text.hexNumber rest
    | '#' :: 'X' :: rest => numberReference? isHexDigit Text.hexNumber rest
    | '#' :: rest => numberReference? Char.isDigit Text.decimalNumber rest
    | _ =>
      nameReference? inAttribute cs ((cs.take maxNameLength).takeWhile Char.isAlphanum).length
  found.getD (['&'], cs)

/-! ## Tags -/

/-- A value up to its end, with its references replaced, and the text from the end on. `fuel` bounds the
steps; each reads at least one character. -/
def attributeValue (isEnd : Char → Bool) : Nat → List Char → List Char × List Char
  | 0, cs => ([], cs)
  | _ + 1, [] => ([], [])
  | fuel + 1, c :: rest =>
    if isEnd c then ([], c :: rest)
    else
      let (chars, after) :=
        if c == '&' then reference true rest
        else ([if c.toNat == 0 then '\ufffd' else c], rest)
      let (value, tail) := attributeValue isEnd fuel after
      (chars ++ value, tail)

/-- The value after an equals sign, and the text after it. -/
def valueAfterEquals (cs : List Char) : List Char × List Char :=
  let cs := cs.dropWhile isSpace
  let quoted (quote : Char) (rest : List Char) : List Char × List Char :=
    let (value, tail) := attributeValue (· == quote) (rest.length + 1) rest
    (value, tail.drop 1)
  match cs with
  | '\x22' :: rest => quoted '\x22' rest
  | '\x27' :: rest => quoted '\x27' rest
  | _ => attributeValue (fun c => isSpace c || c == '>') (cs.length + 1) cs

/-- A name in lower case and without the character zero. -/
def cleanName (cs : List Char) : String :=
  .ofList (cs.map fun c => if c.toNat == 0 then '\ufffd' else c.toLower)

/-- Attributes with one more, unless one of its name is there. -/
def addAttribute (attributes : List Attribute) (name value : List Char) : List Attribute :=
  let name := cleanName name
  if attributes.any fun attr => attr.name == name then attributes
  else attributes ++ [⟨"", name, .ofList value⟩]

/-- The rest of a tag after its name: attributes, whether a solidus ends it, and the text after it. A tag
without an end is none. `fuel` bounds the steps; each reads at least one character. -/
def tagRest? (attributes : List Attribute) :
    Nat → List Char → Option (List Attribute × Bool × List Char)
  | 0, _ => none
  | _ + 1, [] => none
  | fuel + 1, c :: rest =>
    if c == '>' then some (attributes, false, rest)
    else if isSpace c then tagRest? attributes fuel rest
    else if c == '/' then
      match rest with
      | '>' :: after => some (attributes, true, after)
      | _ => tagRest? attributes fuel rest
    else
      let more := rest.takeWhile fun d => !(isSpace d || d == '/' || d == '>' || d == '=')
      let after := rest.drop more.length
      let (value, tail) := match after.dropWhile isSpace with
        | '=' :: body => valueAfterEquals body
        | _ => ([], after)
      tagRest? (addAttribute attributes (c :: more) value) fuel tail

/-- The name of a tag and what follows it. -/
def tagName (cs : List Char) : String × List Char :=
  let name := cs.takeWhile fun c => !(isSpace c || c == '/' || c == '>')
  (cleanName name, cs.drop name.length)

/-- The tag that begins with a letter, and the text after it. -/
def startTag? (cs : List Char) : Option (StartTag × List Char) := do
  let (name, rest) := tagName cs
  let (attributes, isClosed, after) ← tagRest? [] (rest.length + 1) rest
  return (⟨name, attributes, isClosed⟩, after)

/-- The text after the first place where one of some texts stands, or nothing if none does. -/
def afterFirst (stops : List (List Char)) : List Char → List Char
  | [] => []
  | c :: rest =>
    match stops.findSome? fun stop => stop.isPrefixOf? (c :: rest) with
    | some after => after
    | none => afterFirst stops rest

/-- The text after a comment. The text begins after the two hyphens. -/
def afterComment : List Char → List Char
  | '>' :: rest => rest
  | '-' :: '>' :: rest => rest
  | cs => afterFirst ["-->".toList, "--!>".toList] cs

/-- Whether the closing tag of an element follows an opening bracket. -/
def isCloseOf (name : String) (cs : List Char) : Bool :=
  match cs with
  | '/' :: rest =>
    (rest.take name.length).map Char.toLower == name.toList &&
      match rest.drop name.length with
      | c :: _ => isSpace c || c == '/' || c == '>'
      | [] => false
  | _ => false

/-- Whether an opening tag of an element follows an opening bracket. -/
def isOpenOf (name : String) (cs : List Char) : Bool := isCloseOf name ('/' :: cs)

/-! ## Text -/

/-- How the text of a program is read. -/
inductive ScriptState where
  /-- As a program. -/
  | program
  /-- In something that looks like a comment. -/
  | comment
  /-- In something that looks like a program in a comment. -/
  | nested
  deriving Repr, DecidableEq

/-- The text of a program up to its closing tag. `skip` counts characters that belong to what came
before. -/
def scriptText (state : ScriptState) : Nat → List Char → List Char
  | _, [] => []
  | skip + 1, c :: rest => c :: scriptText state skip rest
  | 0, c :: rest =>
    if state != .nested && c == '<' && isCloseOf "script" rest then []
    else
      let (next, skip) : ScriptState × Nat :=
        match state with
        | .program =>
          if "<!-->".toList.isPrefixOf (c :: rest) then (.program, 4)
          else if "<!--->".toList.isPrefixOf (c :: rest) then (.program, 5)
          else if "<!--".toList.isPrefixOf (c :: rest) then (.comment, 3)
          else (.program, 0)
        | .comment =>
          if "-->".toList.isPrefixOf (c :: rest) then (.program, 2)
          else if c == '<' && isOpenOf "script" rest then (.nested, 6)
          else (.comment, 0)
        | .nested =>
          if "-->".toList.isPrefixOf (c :: rest) then (.program, 2)
          else if c == '<' && isCloseOf "script" rest then (.comment, 7)
          else (.nested, 0)
      c :: scriptText next skip rest

/-- The text of an element up to its closing tag. -/
def rawText (name : String) : List Char → List Char
  | [] => []
  | c :: rest => if c == '<' && isCloseOf name rest then [] else c :: rawText name rest

/-- Text of one kind: blanks, or anything else up to the next blank or a character that may mean
something. -/
def textRun (isMark : Char → Bool) : List Char → List Char
  | [] => []
  | c :: rest =>
    if isSpace c then (c :: rest).takeWhile isSpace
    else c :: rest.takeWhile fun d => !(isSpace d || isMark d || d.toNat == 0)

/-- The token of text that markup begins with, and the markup after it. Marks are the characters that may
mean something in text; the first character does not. -/
def textToken (isMark : Char → Bool) : List Char → Option (Token × List Char)
  | [] => none
  | c :: rest =>
    if c.toNat == 0 then some (.null, rest)
    else
      let run := textRun isMark (c :: rest)
      some (.text run, (c :: rest).drop run.length)

/-- The token of a reference, and the markup after it. -/
def referenceToken (cs : List Char) : Token × List Char :=
  let (chars, rest) := reference false cs
  (.text chars, rest)

/-- Whether a character may mean something in text with references. -/
def isTextMark (c : Char) : Bool := c == '<' || c == '&'

/-- What follows an opening bracket and an exclamation mark: a comment, or a section of plain text where
`plain` allows it. -/
def declaration (plain : Bool) (cs : List Char) : Token × List Char :=
  match cs with
  | '-' :: '-' :: rest => (.comment, afterComment rest)
  | _ =>
    match if plain then "[CDATA[".toList.isPrefixOf? cs else none with
    | some rest =>
      let after := afterFirst ["]]>".toList] rest
      let length := rest.length - after.length
      let body := rest.take length
      (.text (if "]]>".toList.isSuffixOf body then body.take (length - 3) else body), after)
    | none => (.comment, (cs.dropWhile (· != '>')).drop 1)

/-- What an opening bracket and the markup after it mean. Brackets that begin nothing are text, and what
has no end is nothing. -/
def bracketToken? (plain : Bool) (cs : List Char) : Option (Token × List Char) :=
  match cs with
  | '!' :: rest => some (declaration plain rest)
  | '?' :: rest => some (.comment, (rest.dropWhile (· != '>')).drop 1)
  | '/' :: c :: rest =>
    if c.isAlpha then (startTag? (c :: rest)).map fun (tag, after) => (.stop tag.name, after)
    else if c == '>' then some (.comment, rest)
    else some (.comment, ((c :: rest).dropWhile (· != '>')).drop 1)
  | ['/'] => some (.text ['<', '/'], [])
  | c :: rest =>
    if c.isAlpha then (startTag? (c :: rest)).map fun (tag, after) => (.start tag, after)
    else some (.text ['<'], cs)
  | [] => some (.text ['<'], [])

/-- The token that markup begins with, and the markup after it. `plain` tells whether sections of plain
text may stand here. -/
def nextToken? (mode : TextMode) (plain : Bool) (cs : List Char) : Option (Token × List Char) :=
  let verbatim (text : List Char) : Option (Token × List Char) :=
    if text.isEmpty then
      (startTag? (cs.drop 2)).map fun (tag, after) => (.stop tag.name, after)
    else
      let cleaned := text.map fun c => if c.toNat == 0 then '\ufffd' else c
      some (.text cleaned, cs.drop text.length)
  match cs with
  | [] => none
  | c :: rest =>
    match mode with
    | .markup =>
      if c == '<' then bracketToken? plain rest
      else if c == '&' then some (referenceToken rest)
      else textToken isTextMark cs
    | .replaceable name =>
      if c == '<' && isCloseOf name rest then verbatim []
      else if c == '&' then some (referenceToken rest)
      else if c.toNat == 0 then some (.text ['\ufffd'], rest)
      else textToken isTextMark cs
    | .raw name => verbatim (rawText name cs)
    | .script => verbatim (scriptText .program 0 cs)
    | .plain => verbatim cs

end Galley.Html
