import Galley.Markdown.Link
import Galley.Markdown.RawHtml

/-!
# Openings of blocks

What a line can begin with, after its indentation.

* `ruleEnd?`, `headingLevel?`, `underline?` — rules and headings;
* `FenceOpening`, `fenceOpening?`, `FenceOpening.closes` — fences of code;
* `ListMark`, `listMark?` — list marks;
* `taskMark?`, `footnoteMark?` — boxes and footnotes;
* `delimiterRow?`, `columnCount` — the first two rows of a table;
* `interrupts` — whether a line ends the paragraph before it.
-/

namespace Galley.Markdown

/-- The text after a rule: three or more of the same mark, blanks between them. -/
def ruleEnd? : List Char → Option (List Char)
  | [] => none
  | mark :: rest =>
    let line := (mark :: rest).takeWhile fun c => !isBreak c
    if (mark == '*' || mark == '-' || mark == '_') &&
        line.all (fun c => c == mark || c == ' ' || c == '\t') && 3 ≤ line.count mark then
      dropLineBreak? ((mark :: rest).drop line.length)
    else none

/-- The level of a heading that begins with number signs: one to six of them, and then a blank. -/
def headingLevel? (cs : List Char) : Option Nat :=
  let level := (cs.takeWhile (· == '#')).length
  if 1 ≤ level && level ≤ 6 && (cs.drop level).head?.all isSpaceOrBreak then some level else none

/-- The level of the heading that a line underlines, and the text after the line. -/
def underline? : List Char → Option (Nat × List Char)
  | [] => none
  | mark :: rest =>
    if mark == '=' || mark == '-' then
      (dropBlankLine? (rest.dropWhile (· == mark))).map fun after => (if mark == '=' then 1 else 2, after)
    else none

/-- The fence that opened a block of code. -/
structure FenceOpening where
  /-- The character it is made of. -/
  mark : Char
  /-- How many there are. -/
  length : Nat
  deriving Repr, DecidableEq

/-- The fence that a text begins with. After grave accents the line holds no other. -/
def fenceOpening? : List Char → Option FenceOpening
  | [] => none
  | mark :: rest =>
    if mark == '\x60' || mark == '~' then
      let after := rest.dropWhile (· == mark)
      let length := rest.length + 1 - after.length
      if length < 3 || (mark == '\x60' && (splitLine after).1.contains '\x60') then none
      else some ⟨mark, length⟩
    else none

/-- The text after the mark that closes a block of code, if a text begins with it. The end of the text
closes it too. -/
def FenceOpening.endsAt? (fence : FenceOpening) : List Char → Option (List Char)
  | [] => some []
  | cs =>
    let after := cs.dropWhile (· == fence.mark)
    if cs.length - after.length < fence.length then none
    else
      let tail := after.dropWhile (· == ' ')
      if atLineBreak tail then some tail else none

/-- The kind of a list and a number. -/
structure ListMark where
  /-- The bullet, or the character after the number. -/
  mark : Char
  /-- The number, zero for a bullet. -/
  number : Nat
  deriving Repr, DecidableEq

/-- Whether a character is a bullet. -/
def isBullet (c : Char) : Bool := c == '-' || c == '+' || c == '*'

/-- Whether the items have numbers. -/
def ListMark.isNumbered (mark : ListMark) : Bool := !isBullet mark.mark

/-- The list mark that a text begins with, how long it is, and the text after it: a bullet, or a number of
at most nine digits with a point or a parenthesis. -/
def listMark? : List Char → Option (ListMark × Nat × List Char)
  | [] => none
  | c :: rest =>
    if isBullet c then some (⟨c, 0⟩, 1, rest)
    else
      let digits := (c :: rest).takeWhile Char.isDigit
      match (c :: rest).drop digits.length with
      | [] => none
      | d :: after =>
        if 1 ≤ digits.length && digits.length ≤ 9 && (d == '.' || d == ')') then
          some (⟨d, Text.decimalNumber digits⟩, digits.length + 1, after)
        else none

/-- Whether a blank or the end of the line follows. -/
def endsMark : List Char → Bool
  | [] => true
  | c :: _ => c == ' ' || c == '\t' || isBreak c

/-- The box that a text begins with and whether it is ticked, and the text after it. -/
def taskMark? : List Char → Option (Bool × List Char)
  | '[' :: c :: ']' :: d :: rest =>
    if isSpaceOrBreak d then
      if isSpace c then some (false, d :: rest)
      else if c == 'x' || c == 'X' then some (true, d :: rest)
      else none
    else none
  | _ => none

/-- The label of the footnote that a text defines, and the text after the colon and blanks. -/
def footnoteMark? : List Char → Option (List Char × List Char)
  | '[' :: '^' :: rest => do
    let (label, after) ← label? (fun _ => none) rest
    match after with
    | ':' :: body => some (label, body.dropWhile isSpace)
    | _ => none
  | _ => none

/-- The columns of a delimiter row, read cell by cell. `current` is the alignment of the cell so far,
`fresh` tells whether the cell is empty, and `dashed` whether it has a hyphen. -/
def delimiterCells? (current : Alignment) (fresh dashed : Bool) : List Char → Option (List Alignment)
  | [] => some (if fresh then [] else [current])
  | c :: rest =>
    if c == ' ' then delimiterCells? current fresh dashed rest
    else if c == ':' then
      let next : Alignment := match fresh, current with
        | true, .unset => .left
        | false, .left => .center
        | false, .unset => .right
        | _, other => other
      delimiterCells? next false dashed rest
    else if c == '-' then delimiterCells? current false true rest
    else if c == '|' && dashed then
      (delimiterCells? .unset true false rest).map (current :: ·)
    else none

/-- The alignments that a delimiter row gives, and the text after the row. It has a bar and a hyphen, and
is indented by at most three columns. -/
def delimiterRow? (cs : List Char) : Option (List Alignment × List Char) :=
  let (missing, inner) := (Margin.ofLine cs).indent 4
  if missing == 0 then none
  else
    let line := inner.rest.takeWhile fun c => !isBreak c
    let cells := match line with
      | '|' :: rest => rest
      | _ => line
    if line.contains '|' && line.contains '-' then do
      let columns ← delimiterCells? .unset true false cells
      let after ← dropLineBreak? (inner.rest.drop line.length)
      return (columns, after)
    else none

/-- How many columns a line with some bars has. Bars at its ends, blanks aside, separate nothing;
`afterLast` is what follows the last one. -/
def columnCount (line : List Char) (bars : Nat) (afterLast : List Char) : Nat :=
  let bars := if (line.dropWhile isSpace).head? == some '|' then bars - 1 else bars
  if isBlankLine afterLast then bars else bars + 1

/-- The number of bars on a line that no backslash escapes, and what follows the last one. `escaped`
tells whether a backslash came just before; `pairs` tells whether a backslash can itself be escaped. -/
def countBars (pairs escaped : Bool) : List Char → Nat × List Char
  | [] => (0, [])
  | c :: rest =>
    if c == '\\' then countBars pairs (!(pairs && escaped)) rest
    else if c == '|' && !escaped then
      let (bars, after) := countBars pairs false rest
      (bars + 1, if bars == 0 then rest else after)
    else countBars pairs false rest

/-- Whether a line that begins with a bar and the line after it begin a table. `inner?` gives the text of
the next line inside all open containers. -/
def opensTable (inner? : List Char → Option (List Char)) : List Char → Bool
  | '|' :: rest =>
    let line := ('|' :: rest).takeWhile fun c => !isBreak c
    match ('|' :: rest).drop line.length with
    | [] => false
    | tail =>
      match (dropLineBreak? tail).bind inner? with
      | some next =>
        match delimiterRow? next with
        | some (columns, _) =>
          let (bars, after) := countBars false false line
          columnCount line bars after == columns.length
        | none => false
      | none => false
  | _ => false

/-- Whether a list item can interrupt a paragraph: it is not empty, or something follows on the next line,
and its number is one. -/
def interruptsAsItem (cs : List Char) (always : Bool) : Bool :=
  match listMark? cs with
  | some (mark, _, rest) =>
    let isEmpty := match dropBlankLine? rest with
      | some next => isBlankLine next
      | none => false
    endsMark rest && (always || ((!mark.isNumbered || mark.number == 1) && !isEmpty))
  | none => false

/-- Whether a line ends the paragraph or the table before it, tables aside. The text begins after the
indentation, which is less than four columns. `always` tells whether any list item does, as it is where
not all containers go on, and in a table. -/
def interruptsPlain (cs : List Char) (always : Bool) : Bool :=
  atLineBreak cs || (ruleEnd? cs).isSome || (headingLevel? cs).isSome || (fenceOpening? cs).isSome ||
    cs.head? == some '>' || interruptsAsItem cs always || (footnoteMark? cs).isSome ||
    match cs with
    | '<' :: rest => (RawHtml.blockEnd? rest).isSome || RawHtml.opensBlock rest
    | _ => false

/-- Whether a line ends the paragraph before it. `inside` tells whether the line stands inside all open
containers, and `inner?` gives the text of the next line inside them. -/
def interrupts (inner? : List Char → Option (List Char)) (inside : Bool) (cs : List Char) : Bool :=
  interruptsPlain cs (!inside) || opensTable inner? cs

end Galley.Markdown
