import Galley.Text.Blank

/-!
# Counts

How many words, characters and lines a document has, and the line that reports them.
-/

namespace Galley

/-- The counts of a document. -/
structure Counts where
  /-- Words between blanks. -/
  words : Nat
  /-- Characters. -/
  chars : Nat
  /-- Lines. A document without line feeds has one. -/
  lines : Nat
  deriving Repr, DecidableEq

namespace Counts

/-- The counts of a text. -/
def ofText (text : String) : Counts :=
  let cs := text.toList
  { words := (Text.words cs).length, chars := cs.length, lines := cs.count '\n' + 1 }

/-- The counts in one line. -/
def report (counts : Counts) : String :=
  toString counts.words ++ " words | " ++ toString counts.chars ++ " chars | " ++
    toString counts.lines ++ " lines"

end Counts

end Galley
