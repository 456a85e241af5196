import Galley.Markdown.Content
import Galley.Markdown.Link
import Galley.Text.Letter

/-!
# Tokens of the line

The text of a block is cut into stretches of text and marks that may turn out to mean something.

* `TokenKind`, `Token` — a mark or a stretch of text and its place;
* `canOpen`, `canClose` — whether a run of delimiters can begin or end emphasis;
* `tokens` — the tokens of a block.
-/

namespace Galley.Markdown

/-- What a token may mean. -/
inductive TokenKind where
  /-- Text as it is written. -/
  | text
  /-- Text that a reference stands for. -/
  | reference (chars : List Char)
  /-- A run of delimiters of emphasis. -/
  | delimiters (mark : Char) (length : Nat) (opens closes : Bool)
  /-- A run of grave accents. Behind a backslash the first one is text. -/
  | graves (length : Nat) (escaped : Bool)
  /-- An opening angle bracket. -/
  | angle
  /-- The opening bracket of a link, or of an image with its exclamation mark. -/
  | opening (isImage : Bool)
  /-- A closing bracket. -/
  | closing
  /-- The end of a line that does not matter. -/
  | softBreak
  /-- The end of a line that is kept. -/
  | hardBreak
  deriving Repr, DecidableEq

/-- A token and its place. -/
structure Token where
  /-- Where it begins. -/
  start : Nat
  /-- Where it ends. -/
  stop : Nat
  /-- What it may mean. -/
  kind : TokenKind
  deriving Repr, DecidableEq

/-- Whether a run of delimiters between two characters can begin emphasis. Nothing may follow where the
block ends. -/
def canOpen (mark : Char) (length : Nat) (before : Char) (after : Option Char) : Bool :=
  match after with
  | none => false
  | some next =>
    if Text.isBlank next then false
    else if mark == '*' && !Text.isPunctuation next then true
    else if mark == '~' && 1 < length then true
    else if mark == '~' && before == '~' && !Text.isPunctuation next then true
    else Text.isBlank before || Text.isPunctuation before

/-- Whether a run of delimiters between two characters can end emphasis. -/
def canClose (mark : Char) (length : Nat) (before : Char) (after : Option Char) : Bool :=
  if Text.isBlank before then false
  else
    match after with
    | none => true
    | some next =>
      if (mark == '*' || (mark == '~' && 1 < length)) && !Text.isPunctuation before then true
      else if mark == '~' && before == '~' then true
      else Text.isBlank next || Text.isPunctuation next

/-- The state of the cut: the tokens so far, the latest first, and where the text begins that has not
become a token yet. -/
structure Cut where
  /-- The tokens so far. -/
  tokens : List Token
  /-- Where text begins that is no token yet. -/
  textStart : Nat

namespace Cut

/-- The state with the text up to a place as a token. -/
def flush (cut : Cut) (place : Nat) : Cut :=
  if cut.textStart < place then ⟨⟨cut.textStart, place, .text⟩ :: cut.tokens, place⟩ else cut

/-- The state with a mark as a token, after the text in front of it. -/
def add (cut : Cut) (start stop : Nat) (kind : TokenKind) : Cut :=
  ⟨⟨start, stop, kind⟩ :: (cut.flush start).tokens, stop⟩

end Cut

/-- How often a character stands at the start of a text. -/
def runLength (mark : Char) (cs : List Char) : Nat := (cs.takeWhile (· == mark)).length

/-- What the first character of a text begins, and how many characters that takes. `before` is the
character in front. -/
def markAt (cut : Cut) (place : Nat) (before : Char) : List Char → Cut × Nat
  | [] => (cut, 1)
  | c :: rest =>
    match c with
    | '\\' =>
      match rest with
      | d :: after =>
        if d == '\x60' then
          let length := 1 + runLength '\x60' after
          let next := { cut.flush place with textStart := place + 1 }
          (next.add (place + 1) (place + 1 + length) (.graves length true), length + 1)
        else if Text.isAsciiPunctuation d then
          ({ cut.flush place with textStart := place + 1 }, 2)
        else (cut, 1)
      | [] => (cut, 1)
    | '\x60' =>
      let length := runLength c (c :: rest)
      (cut.add place (place + length) (.graves length false), length)
    | '<' =>
      if rest.head? == some '\\' then (cut, 1) else (cut.add place (place + 1) .angle, 1)
    | '!' =>
      if rest.head? == some '[' then (cut.add place (place + 2) (.opening true), 2) else (cut, 1)
    | '[' => (cut.add place (place + 1) (.opening false), 1)
    | ']' => (cut.add place (place + 1) .closing, 1)
    | '&' =>
      match reference? rest with
      | some (chars, after) =>
        let length := rest.length + 1 - after.length
        (cut.add place (place + length) (.reference chars), length)
      | none => (cut, 1)
    | _ =>
      if c == '*' || c == '_' || c == '~' then
        let length := runLength c (c :: rest)
        let after := ((c :: rest).drop length).head?
        let opens := canOpen c length before after
        let closes := canClose c length before after
        if (opens || closes) && (c != '~' || length ≤ 2) then
          (cut.add place (place + length) (.delimiters c length opens closes), length)
        else (cut, length)
      else (cut, 1)

/-- Cuts the text of one line. `skip` counts the characters that belong to the token before, and `before`
is the character in front. -/
def cutLine (cut : Cut) (place : Nat) (before : Char) : Nat → List Char → Cut
  | _, [] => cut
  | skip + 1, c :: rest => cutLine cut (place + 1) c skip rest
  | 0, c :: rest =>
    let (next, length) := markAt cut place before (c :: rest)
    cutLine next (place + 1) c (length - 1) rest

/-- The end of a line whose text ends at `place`. An odd number of backslashes keeps it, and so do two or
more blanks. -/
def cutLineBreak (cut : Cut) (place : Nat) (line : ContentLine) : Cut :=
  let after := place + line.lineBreak.length
  let reversed := line.text.reverse
  let blanks := (reversed.takeWhile isSpace).length
  if (reversed.takeWhile (· == '\\')).length % 2 == 1 then
    (cut.flush (place - 1)).add (place - 1) after .hardBreak
  else
    let kind : TokenKind := if 2 ≤ blanks then .hardBreak else .softBreak
    let flushed := cut.flush (place - blanks)
    ⟨⟨place - blanks, after, kind⟩ :: flushed.tokens, after⟩

/-- Cuts some lines, the first of which is at `place`. `before` is the character in front of it. -/
def cutLines (cut : Cut) (place : Nat) (before : Char) : List ContentLine → Cut
  | [] => cut
  | line :: rest =>
    let start := place + line.indentation.length
    let stop := start + line.text.length
    let before := (line.skipped ++ line.indentation).getLast?.getD before
    let ended := cutLine { cut with textStart := start } start before 0 line.text
    if line.lineBreak.isEmpty then ended.flush stop
    else cutLines (cutLineBreak ended stop line) (stop + line.lineBreak.length) '\n' rest

/-- The tokens of a block. -/
def tokens (content : Content) : List Token :=
  (cutLines ⟨[], 0⟩ 0 content.before content.lines).tokens.reverse

end Galley.Markdown
