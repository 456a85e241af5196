/-!
# Blank characters, words and lines

White space in the Unicode sense, and the cuts that depend on it:

* `isBlank` — the characters with the property White_Space;
* `trimStart`, `trimEnd`, `trim` — a text without blanks at its ends;
* `words` — the maximal runs of characters that are not blank;
* `linesWithEnds`, `lines` — the lines of a text, with and without their ends.
-/

namespace Galley.Text

/-- The characters with the Unicode property White_Space. -/
def isBlank (c : Char) : Bool :=
  let n := c.toNat
  (9 ≤ n && n ≤ 13) || n == 0x20 || n == 0x85 || n == 0xa0 || n == 0x1680 ||
    (0x2000 ≤ n && n ≤ 0x200a) || n == 0x2028 || n == 0x2029 || n == 0x202f || n == 0x205f ||
    n == 0x3000

/-- The text without the blanks it begins with. -/
def trimStart (cs : List Char) : List Char := cs.dropWhile isBlank

/-- The text without the characters of a class that it ends with. -/
def dropEndWhile (p : Char → Bool) (cs : List Char) : List Char :=
  (cs.reverse.dropWhile p).reverse

/-- The text without the blanks it ends with. -/
def trimEnd (cs : List Char) : List Char := dropEndWhile isBlank cs

/-- The text without the blanks at its two ends. -/
def trim (cs : List Char) : List Char := trimEnd (trimStart cs)

/-- Whether a text holds nothing but blanks. -/
def isBlankText (cs : List Char) : Bool := cs.all isBlank

/-- The maximal runs of characters that are not blank, from left to right. -/
def words (cs : List Char) : List (List Char) :=
  go cs []
where
  /-- `word` is the part of the current run already read, last character first. -/
  go : List Char → List Char → List (List Char)
    | [], word => if word.isEmpty then [] else [word.reverse]
    | c :: rest, word =>
      if isBlank c then
        if word.isEmpty then go rest [] else word.reverse :: go rest []
      else
        go rest (c :: word)

/-- The lines of a text, each with the line feed that ends it. Only the last line may have none,
and it is never empty. -/
def linesWithEnds (cs : List Char) : List (List Char) :=
  go cs []
where
  /-- `line` is the part of the current line already read, last character first. -/
  go : List Char → List Char → List (List Char)
    | [], line => if line.isEmpty then [] else [line.reverse]
    | c :: rest, line =>
      if c == '\n' then (c :: line).reverse :: go rest [] else go rest (c :: line)

/-- A line without its line feed and without the carriage return just before it. -/
def dropLineEnd (line : List Char) : List Char :=
  match line.reverse with
  | '\n' :: '\r' :: rest => rest.reverse
  | '\n' :: rest => rest.reverse
  | _ => line

/-- The lines of a text without their ends. -/
def lines (cs : List Char) : List (List Char) := (linesWithEnds cs).map dropLineEnd

/-- Whether one text stands at the start of another. -/
def startsWith (start : String) (cs : List Char) : Bool := start.toList.isPrefixOf cs

/-- The rest of a text after a given start, if it begins with that. -/
def dropStart? (start : String) (cs : List Char) : Option (List Char) :=
  start.toList.isPrefixOf? cs

/-- Whether one text stands somewhere in another. -/
def contains (part : List Char) : List Char → Bool
  | [] => part.isEmpty
  | c :: rest => part.isPrefixOf (c :: rest) || contains part rest

end Galley.Text
