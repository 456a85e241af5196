import Galley.Heading.Id
import Galley.Proofs.Text.Case

/-!
# Ids without sentinels

An id is made of letters and digits in lower case. Lower case turns no other character into one for private
use, so the id of a text holds a sentinel only if the text does.

* `silent_idText` — the id that a text would get alone;
* `silent_assign` — the id of a heading.
-/

namespace Galley

open Galley.Source (Marking Silent isPrivateUse silent_of_plain silent_toString)

namespace Heading

variable {m : Marking} {text : String}

/-- The id that a text would get alone holds no sentinel. -/
theorem silent_idText (silent : Silent m text) : Silent m (idText text) := by
  rw [Silent, idText, String.toList_ofList, idChars, List.mem_flatMap]
  rintro ⟨c, kept, written⟩
  obtain ⟨d, inside, stays⟩ := List.mem_filterMap.mp kept
  refine Text.opening_not_mem_lowerChar ?_ written
  rintro rfl
  unfold idChar? at stays
  split at stays
  · rw [Option.some.inj stays] at inside
    refine silent (List.dropWhile_suffix (p := Text.isBlank) |>.subset ?_)
    unfold Text.trim Text.trimEnd Text.dropEndWhile at inside
    exact List.mem_reverse.mp ((List.dropWhile_suffix _).subset (List.mem_reverse.mp inside))
  · split at stays
    · have isPrivate := m.openingPrivate
      rw [← Option.some.inj stays] at isPrivate
      exact absurd isPrivate (by decide)
    · cases stays

theorem silent_numbered (silent : Silent m text) (count : Nat) :
    Silent m (UsedIds.numbered text count) :=
  (silent.append (silent_of_plain (by decide))).append (silent_toString count)

theorem silent_firstFree (used : UsedIds) {base candidate : String} (silent : Silent m base)
    (first : Silent m candidate) (fuel count : Nat) :
    Silent m (used.firstFree base fuel count candidate).1 := by
  induction fuel generalizing count candidate with
  | zero => exact first
  | succ fuel ih =>
    unfold UsedIds.firstFree
    split
    · exact ih (silent_numbered silent _) _
    · exact first

/-- The id of a heading holds no sentinel if its text holds none. -/
theorem silent_assign (used : UsedIds) (silent : Silent m text) :
    ∀ id ∈ (used.assign text).1, Silent m id := by
  intro id given
  unfold UsedIds.assign at given
  simp only at given
  split at given
  · cases given
  · rw [← Option.some.inj given]
    exact silent_firstFree used (silent_idText silent) (silent_idText silent) _ _

end Heading
end Galley
