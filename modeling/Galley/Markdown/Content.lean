import Galley.Markdown.Margin

/-!
# The text of a block

A paragraph, a heading or a cell is a few lines of text. What containers put in front of each line is no
part of it, but is kept beside it.

* `ContentLine`, `Content` — the lines of a block;
* `Content.ofText` — content on a single line;
* `Passage` — the same text as one sequence, with places counted in characters.
-/

namespace Galley.Markdown

/-- A line of a block. -/
structure ContentLine where
  /-- What containers put in front of the line. -/
  skipped : List Char
  /-- The indentation that is left. -/
  indentation : List Char
  /-- The text. -/
  text : List Char
  /-- What ends the line, if another one follows. -/
  lineBreak : List Char
  deriving Repr, DecidableEq

/-- The line with its indentation and its end. -/
def ContentLine.whole (line : ContentLine) : List Char :=
  line.indentation ++ line.text ++ line.lineBreak

/-- The text of a block. -/
structure Content where
  /-- The character in front of the text. -/
  before : Char
  /-- The box in front of the text, and whether it is ticked. -/
  task : Option Bool
  /-- Whether the text stands in a cell of a table. -/
  inCell : Bool
  /-- The lines. -/
  lines : List ContentLine
  deriving Repr, DecidableEq

namespace Content

/-- Content on a single line. -/
def ofText (before : Char) (inCell : Bool) (text : List Char) : Content :=
  ⟨before, none, inCell, [⟨[], [], text, []⟩]⟩

/-- The last of some lines without its end and the blanks before that. -/
def closeLines : List ContentLine → List ContentLine
  | [] => []
  | [line] => [{ line with text := (line.text.reverse.dropWhile isSpace).reverse, lineBreak := [] }]
  | line :: rest => line :: closeLines rest

end Content

/-- The text of a block as one sequence. -/
structure Passage where
  /-- The characters. -/
  chars : Array Char
  /-- What was skipped at the starts of lines, by the place of each line. -/
  skipped : List (Nat × List Char)
  /-- Whether the text stands in a cell of a table. -/
  inCell : Bool

namespace Passage

/-- What was skipped at the starts of some lines, the first of which is at place `start`. -/
def skippedAt : Nat → List ContentLine → List (Nat × List Char)
  | _, [] => []
  | start, line :: rest => (start, line.skipped) :: skippedAt (start + line.whole.length) rest

/-- The text of a block as one sequence. -/
def ofContent (content : Content) : Passage :=
  { chars := (content.lines.flatMap ContentLine.whole).toArray,
    skipped := (skippedAt 0 content.lines).filter fun (_, text) => !text.isEmpty,
    inCell := content.inCell }

/-- The text from a place on. -/
def textFrom (passage : Passage) (start : Nat) : List Char :=
  (passage.chars.extract start passage.chars.size).toList

/-- The text between two places. -/
def slice (passage : Passage) (start stop : Nat) : List Char :=
  (passage.chars.extract start stop).toList

/-- The text between two places together with what was skipped in it. -/
def sliceWithSkipped (passage : Passage) (start stop : Nat) : List Char :=
  go start (passage.slice start stop)
where
  /-- Adds what was skipped. `place` is where the text stands. -/
  go (place : Nat) : List Char → List Char
    | [] => []
    | c :: rest =>
      let skipped := if place == start then [] else (passage.skipped.lookup place).getD []
      skipped ++ c :: go (place + 1) rest

/-- How far a text that goes on to the end of the passage is from its start. -/
def placeOf (passage : Passage) (rest : List Char) : Nat := passage.chars.size - rest.length

end Passage

end Galley.Markdown
