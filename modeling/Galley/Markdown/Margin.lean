/-!
# Margins

A line is read from its margin inwards: markers of containers and blanks between them. A tab reaches to
the next tab stop, and a container may take a part of it only.

* `Margin` — a place in a line and the columns of a tab that are still to be used;
* `Margin.indent` — takes blanks up to a number of columns;
* `Margin.skipBlanks` — takes all blanks;
* `isBlankLine`, `dropLineBreak?` — the end of a line.
-/

namespace Galley.Markdown

/-- Whether a character is a blank within a line. -/
def isSpace (c : Char) : Bool := c == ' ' || c == '\t' || c == '\x0b' || c == '\x0c'

/-- Whether a character is a blank or ends a line. -/
def isSpaceOrBreak (c : Char) : Bool := isSpace c || c == '\n' || c == '\r'

/-- Whether a character ends a line. -/
def isBreak (c : Char) : Bool := c == '\n' || c == '\r'

/-- The text after a line break: a line feed, a carriage return, or both in this order. The end of the
text is a line break too. -/
def dropLineBreak? : List Char → Option (List Char)
  | [] => some []
  | '\r' :: '\n' :: rest => some rest
  | '\r' :: rest => some rest
  | '\n' :: rest => some rest
  | _ :: _ => none

/-- The text after the rest of a line that holds only blanks. -/
def dropBlankLine? (cs : List Char) : Option (List Char) := dropLineBreak? (cs.dropWhile isSpace)

/-- Whether the rest of the line holds only blanks. -/
def isBlankLine (cs : List Char) : Bool := (dropBlankLine? cs).isSome

/-- Whether the line ends here. -/
def atLineBreak : List Char → Bool
  | [] => true
  | c :: _ => isBreak c

/-- A line with its line feed, and the text after it. -/
def splitLine : List Char → List Char × List Char
  | [] => ([], [])
  | c :: rest =>
    if c == '\n' then ([c], rest)
    else
      let (line, after) := splitLine rest
      (c :: line, after)

/-- A place in a line. -/
structure Margin where
  /-- The character in front. -/
  before : Char
  /-- What follows. -/
  rest : List Char
  /-- The column, counted from the start of the line or from the last tab. -/
  column : Nat
  /-- Columns of the last tab that are still to be used. -/
  pending : Nat
  deriving Repr, DecidableEq

namespace Margin

/-- The margin of a line. -/
def ofLine (rest : List Char) : Margin := ⟨'\n', rest, 0, 0⟩

/-- The distance between two tab stops. -/
def tabWidth : Nat := 4

/-- Takes blanks up to `n` columns. Gives the columns that are missing and the margin after the blanks.
`before`, `column` and `pending` are those of the margin. -/
def indentFrom : Nat → Char → Nat → Nat → List Char → Nat × Margin
  | 0, before, column, pending, cs => (0, ⟨before, cs, column, pending⟩)
  | n + 1, before, column, pending, [] => (n + 1, ⟨before, [], column, pending⟩)
  | n + 1, before, column, pending, c :: rest =>
    if c == ' ' then indentFrom n c (column + 1) pending rest
    else if c == '\t' then
      let width := tabWidth - column % tabWidth
      indentFrom (n + 1 - width) c 0 (width - (n + 1)) rest
    else (n + 1, ⟨before, c :: rest, column, pending⟩)

/-- Takes blanks up to `n` columns. Gives the columns that are missing and the margin after the
blanks. -/
def indent (n : Nat) (margin : Margin) : Nat × Margin :=
  indentFrom (n - margin.pending) margin.before margin.column (margin.pending - n) margin.rest

/-- The margin after `n` columns of blanks, or the end of the line if it comes first. -/
def indentOrEnd? (n : Nat) (margin : Margin) : Option Margin :=
  let (missing, inner) := margin.indent n
  if missing == 0 || atLineBreak inner.rest then some inner else none

/-- The margin after a character. -/
def advance (margin : Margin) (c : Char) (rest : List Char) : Margin :=
  { margin with before := c, rest, column := margin.column + 1 }

/-- The margin after all spaces and tabs. -/
def skipBlanks (margin : Margin) : Margin :=
  go margin.before margin.rest
where
  /-- Goes over the blanks of a text. -/
  go : Char → List Char → Margin
    | before, [] => ⟨before, [], 0, 0⟩
    | before, c :: rest =>
      if c == ' ' || c == '\t' then go c rest else ⟨before, c :: rest, 0, 0⟩

/-- The margin after the mark of a quotation and one column of blanks. -/
def quoteMark? (margin : Margin) : Option Margin :=
  match margin.rest with
  | '>' :: rest => some ((margin.advance '>' rest).indent 1).2
  | _ => none

end Margin

end Galley.Markdown
