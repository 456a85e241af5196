import Galley.Text.Blank
import Galley.Text.Bytes

/-!
# Code fences

A fence is a line with at least three backticks or tildes after at most three spaces. It opens a block
of code, which the next fence of the same kind and at least the same length closes, if nothing else
stands on its line.

* `Fence` — the kind of a fence line and the length of its run;
* `Fence.ofLine?` — the fence on a line;
* `Fence.closedBy` — whether a line closes the block that a fence opened.
-/

namespace Galley.Source

/-- The two characters a fence can be made of. -/
inductive FenceMark where
  /-- A run of grave accents. -/
  | backticks
  /-- A run of tildes. -/
  | tildes
  deriving Repr, DecidableEq

/-- The character that a fence of this kind is made of. -/
def FenceMark.char : FenceMark → Char
  | .backticks => '\x60'
  | .tildes => '~'

/-- The kind of fence that a character can begin. -/
def FenceMark.ofChar? (c : Char) : Option FenceMark :=
  if c = '\x60' then some .backticks else if c = '~' then some .tildes else none

/-- A fence line: what it is made of, and how long the run is. -/
structure Fence where
  /-- What the run is made of. -/
  kind : FenceMark
  /-- How many characters the run has. -/
  length : Nat
  deriving Repr, DecidableEq

namespace Fence

/-- A fence is indented by at most this many spaces. -/
def indentLimit : Nat := 3

/-- The run of a fence has at least this length. -/
def minLength : Nat := 3

/-- Whether a character ends lines. -/
def isLineEnd (c : Char) : Bool := c == '\n' || c == '\r'

/-- The fence on a line. What follows a run of backticks must hold none itself, or the line is text
with a code span in it. -/
def ofLine? (line : List Char) : Option Fence :=
  let line := Text.dropEndWhile isLineEnd line
  let body := line.dropWhile (· == ' ')
  if indentLimit < line.length - body.length then none
  else
    match body with
    | [] => none
    | first :: _ =>
      match FenceMark.ofChar? first with
      | none => none
      | some kind =>
        let length := (body.takeWhile (· == first)).length
        if length < minLength then none
        else if kind == .backticks && (body.drop length).contains kind.char then none
        else some { kind, length }

/-- Whether a line closes the block that this fence opened: a fence of the same kind, at least as long,
and alone on its line. -/
def closedBy (opening : Fence) (line : List Char) : Bool :=
  match ofLine? line with
  | some fence =>
    fence.kind == opening.kind && opening.length ≤ fence.length &&
      Text.byteLength (Text.trim line) == fence.length
  | none => false

end Fence

end Galley.Source
