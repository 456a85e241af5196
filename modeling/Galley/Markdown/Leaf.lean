import Galley.Markdown.Outline

/-!
# Leaves of the outline

Blocks that hold no other blocks, read line by line inside the open containers. Each reader gives what it
has read and the text from the next line on.

* `fencedCode`, `indentedCode` — code;
* `markup` — blocks of markup;
* `linkDefinition?` — the definition of a link;
* `tableRows`, `table?` — tables;
* `paragraph` — a paragraph, or the heading that it turns out to be.
-/

namespace Galley.Markdown

/-- A line of code without the carriage return before its end, and with the columns of a tab that a
container did not use. -/
def codeLine (pending : Nat) (line : List Char) : List Char :=
  let line := match line.reverse with
    | last :: '\r' :: rest => (last :: rest).reverse
    | _ => line
  List.replicate pending ' ' ++ line

/-- The lines of a fenced block up to the closing fence, to the end of its containers, or to the end of
the text. As many columns as the fence is indented by are taken off each line. `fuel` bounds the
lines. -/
def fencedCode (containers : List Container) (fence : FenceOpening) (indent : Nat) :
    (fuel : Nat) → List Char → List Char × List Char
  | 0, cs => ([], cs)
  | fuel + 1, cs =>
    let (count, margin) := continued containers (.ofLine cs)
    if count < containers.length then ([], cs)
    else
      let margin := (margin.indent indent).2
      let (missing, inner) := margin.indent (4 - indent)
      match if missing == 0 then none else fence.endsAt? inner.rest with
      | some after => ([], (dropBlankLine? after).getD after)
      | none =>
        let (line, next) := splitLine margin.rest
        let (code, rest) := fencedCode containers fence indent fuel next
        (codeLine margin.pending line ++ code, rest)

/-- The lines of an indented block, whether the last one read is blank, and the text after them. Blank
lines at the end are not part of it. `fuel` bounds the lines. -/
def indentedCode (containers : List Container) : (fuel : Nat) → Margin → List Char × Bool × List Char
  | 0, margin => ([], false, margin.rest)
  | fuel + 1, margin =>
    let (line, next) := splitLine margin.rest
    let isBlank := isBlankLine line
    let line := codeLine margin.pending line
    let (count, inner) := continued containers (.ofLine next)
    let (missing, inner) := inner.indent 4
    if count < containers.length || (0 < missing && !atLineBreak inner.rest) || inner.rest.isEmpty then
      (if isBlank then [] else line, isBlank, next)
    else
      let (code, endsBlank, rest) := indentedCode containers fuel inner
      (if isBlank && code.isEmpty then [] else line ++ code, endsBlank, rest)

/-- The lines of a block of markup: up to the line with its end mark, or up to a blank line if it has no
mark. `lead` is the number of spaces in front of the first line. `fuel` bounds the lines. -/
def markup (containers : List Container) (stop : Option String) :
    (fuel lead : Nat) → List Char → List Char × List Char
  | 0, _, cs => ([], cs)
  | fuel + 1, lead, cs =>
    let (line, next) := splitLine cs
    let (count, margin) := continued containers (.ofLine next)
    let ends := count < containers.length || margin.rest.isEmpty || match stop with
      | some mark => Text.contains mark.toList line
      | none => isBlankLine margin.rest
    if ends then (codeLine lead line, next)
    else
      let (more, rest) := markup containers stop fuel margin.pending margin.rest
      (codeLine lead line ++ more, rest)

/-- The text of the next line of a definition inside its containers, unless the line begins something
else. -/
def definitionLine? (containers : List Container) (line : List Char) : Option (List Char) :=
  let (count, margin) := continued containers (.ofLine line)
  if interrupts (inside? containers) (count == containers.length) margin.rest then none
  else some margin.rest

/-- The text after blanks and at most one line break, and whether there was one. -/
def definitionSpace? (containers : List Container) (cs : List Char) : Option (List Char × Bool) :=
  let rest := cs.dropWhile isSpace
  match dropLineBreak? rest with
  | none => some (rest, false)
  | some next => do
    let next := (← definitionLine? containers next).dropWhile isSpace
    if atLineBreak next then none else some (next, true)

/-- The title of a definition up to its closing quote, as it is written, and the text after that.
`escaped` tells whether a backslash came just before. `fuel` bounds the steps. -/
def definitionTitle? (containers : List Container) (opening closing : Char) :
    (fuel : Nat) → (escaped : Bool) → List Char → Option (List Char × List Char)
  | 0, _, _ => none
  | _ + 1, _, [] => none
  | fuel + 1, escaped, c :: rest =>
    let take (c : Char) (escaped : Bool) (after : List Char) : Option (List Char × List Char) :=
      (definitionTitle? containers opening closing fuel escaped after).map fun (inner, tail) =>
        (c :: inner, tail)
    if isBreak c then do
      let next ← definitionLine? containers (← dropLineBreak? (c :: rest))
      if (underline? next).isSome then none else take '\n' false (next.dropWhile isSpace)
    else if escaped then take c false rest
    else if c == closing then some ([], rest)
    else if c == opening then none
    else take c (c == '\\') rest

/-- The definition of a link that a text begins with: its label, its target, and the text after it. A
title that does not end its line is no part of it. -/
def linkDefinition? (containers : List Container) :
    List Char → Option (List Char × LinkTarget × List Char)
  | '[' :: cs => do
    let (label, rest) ← label? (definitionLine? containers) cs
    let rest ← [':'].isPrefixOf? rest
    let (rest, _) ← definitionSpace? containers rest
    let (destination, after) ← destination? rest
    if after.length == rest.length then none
    else
      let target (title : List Char) : LinkTarget :=
        ⟨.ofList (unescape destination), .ofList (unescape title)⟩
      match definitionSpace? containers after with
      | none => some (label, target [], after)
      | some (rest, broken) =>
        let untitled := if broken then some (label, target [], after) else none
        if rest.length == after.length then none
        else
          let title? := match rest with
            | c :: body =>
              (titleEnd? c).bind fun closing =>
                definitionTitle? containers c closing (body.length + 1) false body
            | [] => none
          match title? with
          | some (title, tail) =>
            if isBlankLine tail then some (label, target title, tail) else untitled
          | none => untitled
  | _ => none

/-- The text of a cell up to the bar after it, and the text from that on. `escaped` tells whether a
backslash came just before. -/
def cellText (escaped : Bool) : List Char → List Char × List Char
  | [] => ([], [])
  | c :: rest =>
    if c == '|' && !escaped then ([], c :: rest)
    else
      let (text, after) := cellText (c == '\\' && !escaped) rest
      (c :: text, after)

/-- The texts of the cells of a row. `fuel` bounds their number. -/
def cellTexts : (fuel : Nat) → List Char → List (List Char)
  | 0, _ => []
  | fuel + 1, cs =>
    let body := match cs with
      | '|' :: rest => rest.dropWhile isSpace
      | _ => cs.dropWhile isSpace
    if body.isEmpty then []
    else
      let (text, rest) := cellText false body
      Text.dropEndWhile isSpace text :: cellTexts fuel rest

/-- The cells of a row, as many as the table has columns. -/
def rowCells (columns : Nat) (texts : List (List Char)) : List Content :=
  (texts ++ List.replicate (columns - texts.length) []).take columns |>.map (Content.ofText ' ' true)

/-- The rows of a table, and the text after it. A row is a line inside all containers that begins nothing
else and has a cell. `fuel` bounds the rows. -/
def tableRows (containers : List Container) (columns : Nat) :
    (fuel : Nat) → List Char → List (List Content) × List Char
  | 0, cs => ([], cs)
  | fuel + 1, cs =>
    let (count, margin) := continued containers (.ofLine cs)
    let body := margin.skipBlanks.rest
    let line := body.takeWhile fun c => !isBreak c
    let texts := cellTexts (line.length + 1) line
    if count < containers.length || interruptsPlain body true || texts.isEmpty then ([], cs)
    else
      let next := (dropLineBreak? (body.drop line.length)).getD []
      let (rows, rest) := tableRows containers columns fuel next
      (rowCells columns texts :: rows, rest)

/-- The table that a text begins with, and the text after it: a line with bars, and a delimiter row with as
many columns. -/
def table? (containers : List Container) (cs : List Char) : Option (Block × List Char) := do
  let line := cs.takeWhile fun c => !isBreak c
  let (bars, afterLast) := countBars true false line
  if bars == 0 || cs.length == line.length then none
  else
    let next ← inside? containers (← dropLineBreak? (cs.drop line.length))
    let (columns, rest) ← delimiterRow? next
    let width := columns.length
    if width == columnCount line bars afterLast then
      let head := rowCells width (cellTexts (line.length + 1) line)
      let (rows, rest) := tableRows containers width (rest.length + 1) rest
      some (.table columns head rows, rest)
    else none

/-- The lines of a paragraph, the level of the heading if the next line underlines it, and the text after
it. The first line follows what containers put in front of it and its indentation. `fuel` bounds the
lines. -/
def paragraphLines (containers : List Container) :
    (fuel : Nat) → (skipped indentation : List Char) → List Char →
      List ContentLine × Option Nat × List Char
  | 0, _, _, cs => ([], none, cs)
  | fuel + 1, skipped, indentation, cs =>
    let text := cs.takeWhile fun c => !isBreak c
    let tail := cs.drop text.length
    let next := (dropLineBreak? tail).getD []
    let line : ContentLine := ⟨skipped, indentation, text, tail.take (tail.length - next.length)⟩
    let (count, margin) := continued containers (.ofLine next)
    let isInside := count == containers.length
    let (missing, inner) := margin.indent 4
    let body := inner.skipBlanks
    match if isInside && 0 < missing then underline? inner.rest else none with
    | some (level, rest) => ([line], some level, rest)
    | none =>
      if atLineBreak body.rest ||
          (0 < missing && interrupts (inside? containers) isInside inner.rest) then
        ([line], none, next)
      else
        let skipped := next.take (next.length - margin.rest.length)
        let indentation := margin.rest.take (margin.rest.length - body.rest.length)
        let (lines, level, rest) := paragraphLines containers fuel skipped indentation body.rest
        (line :: lines, level, rest)

/-- The block that text in a line begins: a table, a paragraph or an underlined heading. `before` is the
character in front, and `task` the box there. -/
def paragraph (containers : List Container) (before : Char) (task : Option Bool) (cs : List Char) :
    Block × List Char :=
  match table? containers cs with
  | some found => found
  | none =>
    let (lines, level, rest) := paragraphLines containers (cs.length + 1) [] [] cs
    let content : Content := ⟨before, task, false, Content.closeLines lines⟩
    match level with
    | some level => (.heading level content, rest)
    | none => (.paragraph content, rest)

/-- The text of a heading that begins with number signs. Number signs at its end are dropped if a space
stands before them. -/
def headingText (line : List Char) : List Char :=
  let text := Text.dropEndWhile (· == ' ') line
  let body := Text.dropEndWhile (· == '#') text
  let cut := Text.dropEndWhile (· == ' ') body
  if body.isEmpty || cut.length < body.length then cut else text

/-- The heading of a level whose number signs a text begins with, and the text after its line. -/
def heading (level : Nat) (cs : List Char) : Block × List Char :=
  let line := (cs.drop level).takeWhile fun c => !isBreak c
  let rest := (dropLineBreak? (cs.drop (level + line.length))).getD []
  (.heading level (.ofText ' ' false (headingText (line.dropWhile isSpace))), rest)

end Galley.Markdown
