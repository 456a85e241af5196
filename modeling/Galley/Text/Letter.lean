import Galley.Text.Table
import Galley.Text.LetterTable

/-!
# Letters, digits and punctuation

Two classes of characters in the Unicode sense. ASCII is decided by its own ranges, the rest by the
tables of `Galley.Text.LetterTable`.

* `isAlphanumeric` — letters and numbers;
* `isPunctuation` — punctuation and symbols;
* `isAsciiPunctuation` — the ASCII part of the latter.
-/

namespace Galley.Text

/-- Letters and numbers beyond ASCII. -/
def alphanumericTable : CharClass := .ofRows alphanumericRows

/-- Punctuation and symbols beyond ASCII. -/
def punctuationTable : CharClass := .ofRows punctuationRows

/-- Whether a character is a letter or a number. -/
def isAlphanumeric (c : Char) : Bool :=
  if c.toNat < 128 then c.isAlphanum else alphanumericTable.contains c

/-- Whether a character is ASCII punctuation or an ASCII symbol. -/
def isAsciiPunctuation (c : Char) : Bool :=
  let n := c.toNat
  (33 ≤ n && n ≤ 47) || (58 ≤ n && n ≤ 64) || (91 ≤ n && n ≤ 96) || (123 ≤ n && n ≤ 126)

/-- Whether a character is punctuation or a symbol. -/
def isPunctuation (c : Char) : Bool :=
  if c.toNat < 128 then isAsciiPunctuation c else punctuationTable.contains c

end Galley.Text
