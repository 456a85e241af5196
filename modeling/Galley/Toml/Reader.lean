import Galley.Toml.Node
import Galley.Toml.Scalar

/-!
# Reading settings

A document is read line by line into statements, and those are put together into a tree.

* `value`, `items`, `pairs` — values, and what stands in lists and tables between brackets;
* `Statement`, `statements` — what the lines say;
* `build` — the tree;
* `read` — the values of a document;
* `lineColumn` — a place in a document, told as readers do.
-/

namespace Galley.Toml

open Galley.Settings (Value)

/-! ## Blanks, comments and keys -/

/-- What follows the blanks that a line goes on with. -/
def dropSpace (cs : List Char) : List Char := cs.dropWhile isSpace

/-- What follows a comment, from behind its mark. -/
def comment : List Char → Except Fault (List Char)
  | [] => .ok []
  | c :: rest =>
    if c = '\n' then .ok (c :: rest)
    else if c = '\r' && rest.head? == some '\n' then .ok (c :: rest)
    else if isTextChar c then comment rest
    else faultAt (c :: rest)

/-- What follows blanks, the ends of lines and comments. `fuel` bounds how many lines there are. -/
def dropLines : (fuel : Nat) → List Char → Except Fault (List Char)
  | 0, cs => .ok cs
  | fuel + 1, cs =>
    match dropSpace cs with
    | '#' :: rest => do dropLines fuel (← comment rest)
    | after =>
      match dropBreak? after with
      | some rest => dropLines fuel rest
      | none => .ok after

/-- What follows the end of a line: blanks, a comment and a line feed, or the end of the document. -/
def endLine (cs : List Char) : Except Fault (List Char) := do
  let after ← match dropSpace cs with
    | '#' :: rest => comment rest
    | other => .ok other
  match after with
  | [] => return []
  | _ =>
    match dropBreak? after with
    | some rest => return rest
    | none => faultAt after

/-- Whether a character can stand in a key without quotes. -/
def isKeyChar (c : Char) : Bool := c.isAlphanum || c == '_' || c == '-'

/-- Whether a character ends a word without quotes. -/
def endsWord (c : Char) : Bool := " \t\n\r#=.,[]\x7b\x7d".toList.contains c

/-- One key. -/
def key (cs : List Char) : Except Fault (Key × List Char) :=
  let named (name : List Char) : Key := ⟨.ofList name, cs.length⟩
  match lineLiteral? cs with
  | some reading => reading.map named
  | none =>
    let word := cs.takeWhile isKeyChar
    let rest := cs.drop word.length
    if word.isEmpty then faultAt cs
    else if rest.head?.all endsWord then .ok (named word, rest)
    else faultAt rest

/-- A path of keys with dots between them: all but the last, and the last. `fuel` bounds how many there
are. -/
def keys : (fuel : Nat) → List Char → Except Fault ((List Key × Key) × List Char)
  | 0, cs => faultAt cs
  | fuel + 1, cs => do
    let (first, rest) ← key cs
    match dropSpace rest with
    | '.' :: after => Reading.map (fun (path, last) => (first :: path, last)) (keys fuel (dropSpace after))
    | other => return (([], first), other)

/-! ## Values -/

/-- A word without quotes, which may hold dots. A date and a time of day may have a blank between them. -/
def word (cs : List Char) : List Char × List Char :=
  let isPart (c : Char) : Bool := c == '.' || !endsWord c
  let first := cs.takeWhile isPart
  let rest := cs.drop first.length
  match rest with
  | ' ' :: c :: more =>
    if isDate first && c.isDigit then
      let second := (c :: more).takeWhile isPart
      (first ++ ' ' :: second, (c :: more).drop second.length)
    else (first, rest)
  | _ => (first, rest)

/-- A truth value, a number or a date. -/
def scalar (cs : List Char) : Except Fault (Value × List Char) :=
  let (text, rest) := word cs
  if text == "true".toList then .ok (.boolean true, rest)
  else if text == "false".toList then .ok (.boolean false, rest)
  else if isScalar text then .ok (.other, rest)
  else faultAt cs

mutual

/-- A value. `fuel` bounds how deep values stand in each other and how many stand in a row. -/
def value : (fuel : Nat) → List Char → Except Fault (Value × List Char)
  | 0, cs => faultAt cs
  | fuel + 1, cs =>
    let reading : Except Fault (Value × List Char) :=
      match cs with
      | '[' :: rest => do
        let (found, after) ← items fuel (← dropLines rest.length rest)
        return (.list found, after)
      | '\x7b' :: rest => do
        let (found, after) ← pairs fuel [] (← dropLines rest.length rest)
        return (.table (toValues found), after)
      | _ =>
        match literal? cs with
        | some reading => reading.map fun text => .text (.ofList text)
        | none => scalar cs
    Reading.map (.located cs.length) reading

/-- The values of a list up to its end. -/
def items : (fuel : Nat) → List Char → Except Fault ((List Value) × List Char)
  | 0, cs => faultAt cs
  | _ + 1, ']' :: rest => .ok ([], rest)
  | fuel + 1, cs => do
    let (first, rest) ← value fuel cs
    match ← dropLines rest.length rest with
    | ',' :: after => Reading.map (first :: ·) (items fuel (← dropLines after.length after))
    | ']' :: after => return ([first], after)
    | other => faultAt other

/-- The entries of a table between braces up to its end. `found` are those before. -/
def pairs : (fuel : Nat) → (found : Entries) → List Char → Except Fault (Entries × List Char)
  | 0, _, cs => faultAt cs
  | _ + 1, found, '\x7d' :: rest => .ok (found, rest)
  | fuel + 1, found, cs => do
    let ((path, last), rest) ← keys cs.length cs
    match rest with
    | '=' :: after =>
      let (item, more) ← value fuel (dropSpace after)
      let found ← assign found path last (.value item)
      match ← dropLines more.length more with
      | ',' :: next => pairs fuel found (← dropLines next.length next)
      | '\x7d' :: next => return (found, next)
      | other => faultAt other
    | other => faultAt other

end

/-! ## Statements -/

/-- What a line says. -/
inductive Statement where
  /-- What follows goes into a table. -/
  | table (remaining : Nat) (path : List Key) (last : Key)
  /-- What follows goes into another table of a row. -/
  | item (remaining : Nat) (path : List Key) (last : Key)
  /-- A value under a path of keys. -/
  | assign (path : List Key) (last : Key) (value : Value)

/-- The heading of a table, from behind its brackets. `count` is how many there are. -/
def heading (count : Nat) (cs : List Char) : Except Fault ((List Key × Key) × List Char) := do
  let (path, rest) ← keys cs.length (dropSpace cs)
  if (List.replicate count ']').isPrefixOf rest then return (path, rest.drop count)
  else faultAt (rest.dropWhile (· == ']'))

/-- One statement. -/
def statement (cs : List Char) : Except Fault (Statement × List Char) :=
  match cs with
  | '[' :: '[' :: rest => Reading.map (fun (path, last) => .item cs.length path last) (heading 2 rest)
  | '[' :: rest => Reading.map (fun (path, last) => .table cs.length path last) (heading 1 rest)
  | _ => do
    let ((path, last), rest) ← keys cs.length cs
    match rest with
    | '=' :: after =>
      let start := dropSpace after
      Reading.map (.assign path last) (value (2 * start.length + 2) start)
    | other => faultAt other

/-- The statements of a document. `fuel` bounds how many there are. -/
def statements : (fuel : Nat) → List Char → Except Fault (List Statement)
  | 0, _ => .ok []
  | fuel + 1, cs => do
    match ← dropLines (cs.length + 1) cs with
    | [] => return []
    | start =>
      let (first, rest) ← statement start
      return first :: (← statements fuel (← endLine rest))

/-- The tree after some more statements. `path` leads to the table that values go into. -/
def build : List Statement → (path : List String) → Entries → Except Fault Entries
  | [], _, entries => .ok entries
  | .table remaining path last :: rest, _, entries => do
    let entries ← descend entries (openTable remaining last) path
    build rest ((path ++ [last]).map Key.name) entries
  | .item remaining path last :: rest, _, entries => do
    let entries ← descend entries (openItem remaining last) path
    build rest ((path ++ [last]).map Key.name) entries
  | .assign keys last value :: rest, path, entries => do
    let entries ← within entries (fun inner => assign inner keys last (.value value)) path
    build rest path entries

/-- A document without the mark that may stand in front of it. -/
def dropMark : List Char → List Char
  | '\ufeff' :: rest => rest
  | cs => cs

/-- The values of a document. -/
def read (text : String) : Except Fault Value := do
  let cs := dropMark text.toList
  let found ← statements (cs.length + 1) cs
  return .table (toValues (← build found [] []))

/-- The line and the column of a place, both counted from one. -/
def lineColumn (text : String) (remaining : Nat) : Nat × Nat :=
  let before := text.toList.take (text.length - remaining)
  let line := before.reverse.takeWhile (· != '\n')
  (before.count '\n' + 1, line.length + 1)

end Galley.Toml
