import Galley.Source.Fence
import Galley.Text.Case
import Galley.Text.Escape

/-!
# Table of contents

The headings of a document as a nested list of links. The entries come from the heading lines of the
source, and each anchor from the text of its own heading alone: two headings with the same text have
the same anchor.

* `anchorOf` — the anchor of a heading text;
* `ContentsEntry`, `ContentsEntry.ofLine?` — an entry, and the one that a heading line gives;
* `contents` — the entries of a document, code left out;
* `contentsMarkup` — the list.
-/

namespace Galley.Heading

/-- Whether an anchor keeps a character: ASCII letters and digits, `_` and `-`. -/
def isAnchorChar (c : Char) : Bool := c.isAlphanum || c == '_' || c == '-'

/-- The characters of an anchor. `inBlanks` says that a run of blanks is being read, for which the `-`
is written already; a character that is dropped does not end it. -/
def anchorChars : Bool → List Char → List Char
  | _, [] => []
  | inBlanks, c :: rest =>
    if Text.isBlank c then
      if inBlanks then anchorChars true rest else '-' :: anchorChars true rest
    else if isAnchorChar c then
      c :: anchorChars false rest
    else
      anchorChars inBlanks rest

/-- The anchor of a heading text: in lower case, each run of blanks as one `-`, and of all else only
ASCII letters and digits, `_` and `-`. -/
def anchorOf (text : String) : String := .ofList (anchorChars false (Text.lower text.toList))

/-- A heading in the table of contents. -/
structure ContentsEntry where
  /-- How deep the heading is; 1 is the top. -/
  level : Nat
  /-- What the heading says. -/
  text : String
  /-- What its link leads to. -/
  anchor : String
  deriving Repr, DecidableEq

/-- The entry of a heading line: one to six `#`, a blank, and a text that is more than blanks. -/
def ContentsEntry.ofLine? (line : List Char) : Option ContentsEntry :=
  let level := (line.takeWhile (· == '#')).length
  match line.drop level with
  | c :: rest =>
    if 1 ≤ level && level ≤ 6 && Text.isBlank c then
      let text := Text.trim rest
      if text.isEmpty then none
      else
        let text := String.ofList text
        some { level, text, anchor := anchorOf text }
    else none
  | [] => none

/-- The entries of some lines. `opened` is the fence of the code block being read. -/
def contentsFrom : Option Source.Fence → List (List Char) → List ContentsEntry
  | _, [] => []
  | some fence, line :: rest =>
    contentsFrom (if fence.closedBy line then none else some fence) rest
  | none, line :: rest =>
    match Source.Fence.ofLine? line with
    | some fence => contentsFrom (some fence) rest
    | none => (ContentsEntry.ofLine? line).toList ++ contentsFrom none rest

/-- The headings of a document in their order, fenced code left out. -/
def contents (source : String) : List ContentsEntry :=
  contentsFrom none (Text.lines source.toList)

/-- A text written `n` times. -/
def times (n : Nat) (text : String) : String := String.join (List.replicate n text)

/-- What leads from the entry before to an entry of a level. `base` is the lowest level of the list,
`depth` the level of the entry before. -/
def stepMarkup (base : Nat) (depth : Option Nat) (level : Nat) : String :=
  match depth with
  | none => times (level - base) "<li><ul>"
  | some current =>
    if current < level then "<ul>" ++ times (level - (current + 1)) "<li><ul>"
    else "</li>" ++ times (current - level) "</ul></li>"

/-- The open item of an entry. -/
def itemMarkup (entry : ContentsEntry) : String :=
  "<li class=\"toc-level-" ++ toString entry.level ++ "\"><a href=\"#" ++
    Text.escapeAttribute entry.anchor ++ "\">" ++ Text.escapeText entry.text ++ "</a>"

/-- The items of some entries, with what closes the last one. -/
def itemsMarkup (base : Nat) : Option Nat → List ContentsEntry → String
  | none, [] => ""
  | some current, [] => "</li>" ++ times (current - base) "</ul></li>"
  | depth, entry :: rest =>
    stepMarkup base depth entry.level ++ itemMarkup entry ++ itemsMarkup base (some entry.level) rest

/-- The list of some entries. Without entries there is no list. -/
def contentsMarkup (entries : List ContentsEntry) : String :=
  match (entries.map ContentsEntry.level).min? with
  | none => ""
  | some base =>
    "<nav class=\"table-of-contents\"><h4>Table of Contents</h4><ul>" ++
      itemsMarkup base none entries ++ "</ul></nav>"

end Galley.Heading
