import Galley.Toml.Reader

/-!
# Writing settings

A text is written in the plainest way in which it can be read again: in quotes, else in apostrophes, else
on several lines, else with every special character named.

* `Style`, `Style.fits` — the ways of writing a text, and when they can be used;
* `encode` — a text;
* `encodeKey` — a key;
* `encodeTexts` — a list of texts.
-/

namespace Galley.Toml

/-- A way of writing a text. -/
inductive Style where
  /-- In quotes. -/
  | quoted
  /-- In apostrophes. -/
  | plain
  /-- In three quotes. -/
  | quotedLines
  /-- In three apostrophes. -/
  | plainLines
  deriving Repr, DecidableEq

/-- The longest run of a character in a text. `run` is the run just before it. -/
def longestRun (mark : Char) : (run : Nat) → List Char → Nat
  | run, [] => run
  | run, c :: rest => if c == mark then longestRun mark (run + 1) rest else max run (longestRun mark 0 rest)

/-- Whether a character has to be named: it is for control, but neither a tab nor a line feed. -/
def mustBeNamed (c : Char) : Bool := !isTextChar c && c != '\n'

/-- Whether a text can be written in a way with no character named, but for tabs. -/
def Style.fits (style : Style) (cs : List Char) : Bool :=
  !cs.any mustBeNamed &&
    match style with
    | quoted => !cs.contains '\\' && !cs.contains '\x22' && !cs.contains '\n'
    | plain => !cs.contains '\x27' && !cs.contains '\n'
    | quotedLines => !cs.contains '\\' && longestRun '\x22' 0 cs ≤ 2
    | plainLines => longestRun '\x27' 0 cs ≤ 2

/-- The way in which a text is written. -/
def styleOf (cs : List Char) : Style :=
  let usual := [Style.quoted, .plain, .quotedLines, .plainLines]
  (usual.find? (·.fits cs)).getD (if cs.contains '\n' then .quotedLines else .quoted)

/-- A character after a backslash, if it has a short name. -/
def shortName? (c : Char) : Option Char :=
  if c = '\x08' then some 'b'
  else if c = '\t' then some 't'
  else if c = '\n' then some 'n'
  else if c = '\x0c' then some 'f'
  else if c = '\r' then some 'r'
  else if c = '\\' then some '\\'
  else if c = '\x22' then some '\x22'
  else none

/-- A character named. -/
def named (c : Char) : List Char :=
  match shortName? c with
  | some d => ['\\', d]
  | none => '\\' :: 'u' :: (Text.hexDigits c.toNat 4).map Char.toUpper

/-- The characters of a text in quotes. -/
def quotedChar (c : Char) : List Char :=
  if c = '\t' || c = '\\' || c = '\x22' || !isTextChar c then named c else [c]

/-- The characters of a text in three quotes. `run` is how many quotes stand just before. -/
def quotedLinesChars : (run : Nat) → List Char → List Char
  | _, [] => []
  | run, c :: rest =>
    if c = '\n' then c :: quotedLinesChars 0 rest
    else if c = '\x22' then
      if 2 ≤ run then named c ++ quotedLinesChars 0 rest else c :: quotedLinesChars (run + 1) rest
    else quotedChar c ++ quotedLinesChars 0 rest

/-- The line feed that comes before a text on several lines. -/
def leadingBreak (cs : List Char) : List Char := if cs.contains '\n' then ['\n'] else []

/-- A text written in a way. -/
def Style.encode (style : Style) (cs : List Char) : List Char :=
  match style with
  | quoted => '\x22' :: (cs.flatMap quotedChar ++ ['\x22'])
  | plain => '\x27' :: (cs ++ ['\x27'])
  | quotedLines =>
    let marks := List.replicate 3 '\x22'
    marks ++ leadingBreak cs ++ quotedLinesChars 0 cs ++ marks
  | plainLines =>
    let marks := List.replicate 3 '\x27'
    marks ++ leadingBreak cs ++ cs ++ marks

/-- A text as it is written. -/
def encode (cs : List Char) : List Char := (styleOf cs).encode cs

/-- A key as it is written: without quotes if it can stand so. It never takes several lines. -/
def encodeKey (cs : List Char) : List Char :=
  if !cs.isEmpty && cs.all isKeyChar then cs
  else if Style.quoted.fits cs then Style.quoted.encode cs
  else if Style.plain.fits cs then Style.plain.encode cs
  else Style.quoted.encode cs

/-- How far the items of a long list stand from the margin. -/
def margin : List Char := [' ', ' ', ' ', ' ']

/-- A list of texts. More than one stand on a line each. -/
def encodeTexts (items : List String) : List Char :=
  match items with
  | [] => ['[', ']']
  | [item] => '[' :: (encode item.toList ++ [']'])
  | _ =>
    ['[', '\n'] ++ (items.flatMap fun item => margin ++ encode item.toList ++ [',', '\n']) ++ [']']

/-- A line with a key and what stands under it. -/
def entryLine (key : List Char) (value : List Char) : List Char :=
  encodeKey key ++ [' ', '=', ' '] ++ value ++ ['\n']

end Galley.Toml
