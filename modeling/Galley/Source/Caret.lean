import Galley.Text.Bytes

/-!
# Carets

A caret is a place in the bytes of a text. Scanners only ever look for ASCII delimiters, and no byte
inside a longer character is one of those, so a caret may stand between the bytes of a character.

* `Caret.current?`, `Caret.previous?`, `Caret.atEnd` — what stands around the caret;
* `Caret.startsWith`, `Caret.startsWithIgnoringCase` — what stands from the caret on;
* `Caret.next`, `Caret.advance`, `Caret.moveTo` — the ways to move.
-/

namespace Galley.Source

/-- A place in the bytes of a text. It may lie beyond the end. -/
structure Caret where
  /-- The bytes of the text. -/
  bytes : Array UInt8
  /-- The offset of the next byte. -/
  pos : Nat
  deriving Repr, DecidableEq

namespace Caret

/-- The caret at byte `pos` of a text. -/
def ofString (text : String) (pos : Nat) : Caret := ⟨Text.bytes text, pos⟩

/-- Whether no byte is left. -/
def atEnd (caret : Caret) : Bool := caret.bytes.size ≤ caret.pos

/-- The next byte. -/
def current? (caret : Caret) : Option UInt8 := caret.bytes[caret.pos]?

/-- The byte before the caret. -/
def previous? (caret : Caret) : Option UInt8 :=
  if caret.pos = 0 then none else caret.bytes[caret.pos - 1]?

/-- The next `n` bytes, if there are that many. Beyond the end of the text there are not even none. -/
def take? (caret : Caret) (n : Nat) : Option (List UInt8) :=
  if caret.pos + n ≤ caret.bytes.size then
    some (caret.bytes.extract caret.pos (caret.pos + n)).toList
  else
    none

/-- Whether the next bytes are these. -/
def startsWith (caret : Caret) (pattern : List UInt8) : Bool :=
  caret.take? pattern.length == some pattern

/-- Whether the next bytes are these, where the case of ASCII letters does not count. -/
def startsWithIgnoringCase (caret : Caret) (pattern : List UInt8) : Bool :=
  match caret.take? pattern.length with
  | some found => found.map Text.lowerByte == pattern.map Text.lowerByte
  | none => false

/-- The caret `n` bytes further. -/
def advance (caret : Caret) (n : Nat) : Caret := { caret with pos := caret.pos + n }

/-- The caret at another offset. -/
def moveTo (caret : Caret) (pos : Nat) : Caret := { caret with pos }

/-- The next byte and the caret after it. At the end the caret stays. -/
def next (caret : Caret) : Option UInt8 × Caret :=
  match caret.current? with
  | some b => (some b, caret.advance 1)
  | none => (none, caret)

end Caret

end Galley.Source
