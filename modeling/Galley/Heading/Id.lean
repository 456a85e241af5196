import Galley.Text.Blank
import Galley.Text.Case
import Galley.Text.Letter

/-!
# Heading ids

A heading gets an id made of its text, so that links can lead to it.

* `idText` — the id that a text would get alone;
* `UsedIds` — the ids in use on a page;
* `UsedIds.assign` — the id of the next heading, with a number when its own is in use.
-/

namespace Galley.Heading

/-- What a character becomes in an id: letters, digits, `_` and `-` stay, a blank becomes `-`. -/
def idChar? (c : Char) : Option Char :=
  if Text.isAlphanumeric c || c == '_' || c == '-' then some c
  else if Text.isBlank c then some '-'
  else none

/-- The characters of an id: those that stay, in lower case. -/
def idChars (cs : List Char) : List Char :=
  ((Text.trim cs).filterMap idChar?).flatMap Text.lowerChar

/-- The id that a text would get alone. It may be empty. -/
def idText (text : String) : String := .ofList (idChars text.toList)

/-- The ids in use on a page, the latest first. With each one stands the last number that was added to
it to make another. -/
structure UsedIds where
  /-- The ids and their numbers. An id may stand here more than once; the first counts. -/
  seen : List (String × Nat)
  deriving Repr

namespace UsedIds

/-- A page without ids. -/
def empty : UsedIds := ⟨[]⟩

/-- Whether an id is in use. -/
def uses (used : UsedIds) (id : String) : Bool := (used.seen.lookup id).isSome

/-- An id with a number added. -/
def numbered (base : String) (count : Nat) : String := base ++ "-" ++ toString count

/-- The first id that is not in use among `candidate` and `base` with the numbers after `count`, and
the number it carries. `fuel` bounds the ids that are tried. -/
def firstFree (used : UsedIds) (base : String) : Nat → Nat → String → String × Nat
  | 0, count, candidate => (candidate, count)
  | fuel + 1, count, candidate =>
    if used.uses candidate then
      firstFree used base fuel (count + 1) (numbered base (count + 1))
    else
      (candidate, count)

/-- The id of a heading and the ids in use after it. A text that leaves nothing gets no id. One more
candidate than there are ids in use is always enough. -/
def assign (used : UsedIds) (text : String) : Option String × UsedIds :=
  let base := idText text
  if base.isEmpty then (none, used)
  else
    let last := (used.seen.lookup base).getD 0
    let (id, count) := used.firstFree base (used.seen.length + 1) last base
    let seen := (base, count) :: used.seen
    (some id, ⟨if id == base then seen else (id, 0) :: seen⟩)

end UsedIds

end Galley.Heading
