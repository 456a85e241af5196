import Galley.Markdown.Event
import Galley.Markdown.Margin
import Galley.Text.Blank
import Galley.Text.Case
import Galley.Text.Letter
import Galley.Text.Reference

/-!
# The parts of links

* `reference?` — a character reference in Markdown;
* `unescape` — a text without backslashes and references;
* `destination?`, `label?` — the parts of links and of their definitions;
* `Definitions` — the addresses and footnotes that a document defines.
-/

namespace Galley.Markdown

/-- The character with a number. Where there is none, it is the replacement character. -/
def charOfNumber (n : Nat) : Char :=
  if n == 0 || !Text.isScalar n then '\ufffd' else Char.ofNat n

/-- What the digits of a numeric reference stand for, if there are between one and `most` of them and a
semicolon follows, and the text after that. -/
def numberedReference? (isDigit : Char → Bool) (value : List Char → Nat) (most : Nat) (cs : List Char) :
    Option (List Char × List Char) :=
  let digits := (cs.take most).takeWhile isDigit
  match digits, cs.drop digits.length with
  | _ :: _, ';' :: rest => some ([charOfNumber (value digits)], rest)
  | _, _ => none

/-- What the reference stands for that a text begins with, and the text after it. The text begins after
the ampersand. -/
def reference? (cs : List Char) : Option (List Char × List Char) :=
  let isHexDigit (c : Char) : Bool := (Text.hexValue? c).isSome
  match cs with
  | '#' :: 'x' :: rest => numberedReference? isHexDigit Text.hexNumber 6 rest
  | '#' :: 'X' :: rest => numberedReference? isHexDigit Text.hexNumber 6 rest
  | '#' :: rest => numberedReference? Char.isDigit Text.decimalNumber 7 rest
  | _ =>
    let name := cs.takeWhile Char.isAlphanum
    match cs.drop name.length with
    | ';' :: rest => (Text.named? name).map fun found => (found.chars, rest)
    | _ => none

/-- A text without the backslashes before punctuation, with its references replaced and without carriage
returns. `fuel` bounds the steps; each reads at least one character. -/
def unescapeChars : Nat → List Char → List Char
  | 0, cs => cs
  | _ + 1, [] => []
  | fuel + 1, c :: rest =>
    if c == '\\' then
      match rest with
      | d :: after =>
        if Text.isAsciiPunctuation d then d :: unescapeChars fuel after else c :: unescapeChars fuel rest
      | [] => [c]
    else if c == '&' then
      match reference? rest with
      | some (chars, after) => chars ++ unescapeChars fuel after
      | none => c :: unescapeChars fuel rest
    else if c == '\r' then unescapeChars fuel rest
    else c :: unescapeChars fuel rest

/-- A text without backslashes, references and carriage returns. -/
def unescape (cs : List Char) : List Char := unescapeChars cs.length cs

/-- The deepest nesting of parentheses in a destination without angle brackets. -/
def maxNesting : Nat := 32

/-- The part of a destination between angle brackets, and the text after the closing one. `escaped` tells
whether a backslash came just before. -/
def bracketed? (escaped : Bool) : List Char → Option (List Char × List Char)
  | [] => none
  | c :: rest =>
    let take (escaped : Bool) : Option (List Char × List Char) :=
      (bracketed? escaped rest).map fun (inner, tail) => (c :: inner, tail)
    if escaped && Text.isAsciiPunctuation c then take false
    else if c == '>' then some ([], rest)
    else if isBreak c || c == '<' then none
    else take (c == '\\')

/-- A destination without angle brackets: up to a blank, a control character or a parenthesis without its
partner. `depth` parentheses are open, and `escaped` tells whether a backslash came just before. -/
def unbracketed? (depth : Nat) (escaped : Bool) : List Char → Option (List Char × List Char)
  | [] => if depth == 0 then some ([], []) else none
  | c :: rest =>
    let take (depth : Nat) (escaped : Bool) : Option (List Char × List Char) :=
      (unbracketed? depth escaped rest).map fun (inner, tail) => (c :: inner, tail)
    if escaped && Text.isAsciiPunctuation c then take depth false
    else if c.toNat ≤ 32 then if depth == 0 then some ([], c :: rest) else none
    else if c == '(' then if maxNesting < depth then none else take (depth + 1) false
    else if c == ')' then if depth == 0 then some ([], c :: rest) else take (depth - 1) false
    else take depth (c == '\\')

/-- The destination that a text begins with, as it is written, and the text after it. -/
def destination? : List Char → Option (List Char × List Char)
  | '<' :: rest => bracketed? false rest
  | cs => unbracketed? 0 false cs

/-- The quote that ends a title. -/
def titleEnd? : Char → Option Char
  | '\x22' => some '\x22'
  | '\x27' => some '\x27'
  | '(' => some ')'
  | _ => none

/-- A label has fewer characters than this. -/
def maxLabelLength : Nat := 1000

/-- The rest of a label up to its closing bracket, blanks joined, and the text after it. `continued`
gives the text of the next line, if the label may go on there; `blanks` tells whether blanks came just
before, and `breaks` how many line breaks were among them. `fuel` bounds the steps. -/
def labelRest? (continued : List Char → Option (List Char)) :
    (fuel : Nat) → (blanks : Bool) → (breaks : Nat) → List Char → Option (List Char × List Char)
  | 0, _, _, _ => none
  | _ + 1, _, _, [] => none
  | fuel + 1, blanks, breaks, c :: rest =>
    let emit (cs after : List Char) : Option (List Char × List Char) :=
      (labelRest? continued fuel false 0 after).map fun (inner, tail) =>
        (if blanks then ' ' :: (cs ++ inner) else cs ++ inner, tail)
    if c == '[' then none
    else if c == ']' then some (if blanks then [' '] else [], rest)
    else if c == '\\' then
      match rest with
      | d :: after => emit [c, d] after
      | [] => none
    else if isBreak c then
      if 1 ≤ breaks then none
      else do
        let next ← dropLineBreak? (c :: rest)
        labelRest? continued fuel true (breaks + 1) (← continued next)
    else if isSpace c then labelRest? continued fuel true breaks rest
    else emit [c] rest

/-- The label up to its closing bracket, and the text after it. Blanks in it are joined and those at its
ends dropped; a label of blanks only is none. The text begins after the opening bracket. -/
def label? (continued : List Char → Option (List Char)) (cs : List Char) :
    Option (List Char × List Char) := do
  let (inner, rest) ← labelRest? continued (cs.length + 1) false 0 cs
  let label := Text.dropEndWhile (· == ' ') (inner.dropWhile (· == ' '))
  if label.isEmpty || maxLabelLength ≤ label.length then none else some (label, rest)

/-- What a document defines. The keys are labels with their case folded. -/
structure Definitions where
  /-- The targets of links. -/
  links : List (List Char × LinkTarget)
  /-- The labels of footnotes. -/
  footnotes : List (List Char)
  deriving Repr, DecidableEq

namespace Definitions

/-- No definitions. -/
def empty : Definitions := ⟨[], []⟩

/-- The definitions with one more target. The first one of a label counts. -/
def addLink (definitions : Definitions) (label : List Char) (target : LinkTarget) : Definitions :=
  { definitions with links := definitions.links ++ [(Text.fold label, target)] }

/-- The definitions with one more footnote. -/
def addFootnote (definitions : Definitions) (label : List Char) : Definitions :=
  { definitions with footnotes := Text.fold label :: definitions.footnotes }

/-- The target of a label. -/
def link? (definitions : Definitions) (label : List Char) : Option LinkTarget :=
  definitions.links.lookup (Text.fold label)

/-- Whether a footnote has a label. -/
def hasFootnote (definitions : Definitions) (label : List Char) : Bool :=
  definitions.footnotes.contains (Text.fold label)

end Definitions

end Galley.Markdown
