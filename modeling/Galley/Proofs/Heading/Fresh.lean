import Galley.Heading.Id
import Mathlib

/-!
# Headings get ids of their own

A heading whose id is in use gets a number added. One number after the other is tried, and as more ids are tried than are
in use, one of them is free.

* `tried` — the ids that are tried;
* `uses_of_firstFree` — an id is only given although it is in use if all that were tried are;
* `uses_firstFree` — so the id that is given is not in use;
* `uses_assign_before`, `uses_assign_after` — what is in use before and after a heading.
-/

namespace Galley.Heading.UsedIds

variable {used : UsedIds} {base candidate id text : String}

theorem uses_iff : used.uses id = true ↔ id ∈ used.seen.map Prod.fst := by
  unfold uses
  induction used.seen with
  | nil => simp
  | cons entry rest ih =>
    obtain ⟨key, count⟩ := entry
    by_cases same : id = key
    · simp [same]
    · rw [List.lookup_cons, beq_false_of_ne same, List.map_cons, List.mem_cons, ih]
      simp [same]

theorem numbered_injective (base : String) : Function.Injective (numbered base) := by
  intro m n same
  have digits := congrArg String.toList same
  simp only [numbered, String.toList_append, List.append_right_inj, String.toList_inj] at digits
  exact Nat.repr_inj.mp digits

theorem numbered_ne (base : String) (count : Nat) : numbered base count ≠ base := by
  intro same
  have length := congrArg String.length same
  unfold numbered at length
  rw [String.length_append, String.length_append] at length
  have dash : "-".length = 1 := rfl
  omega

/-- The ids that are tried from a candidate on. -/
def tried (base : String) : Nat → Nat → String → List String
  | 0, _, _ => []
  | fuel + 1, count, candidate => candidate :: tried base fuel (count + 1) (numbered base (count + 1))

theorem length_tried (base : String) (fuel count : Nat) (candidate : String) :
    (tried base fuel count candidate).length = fuel := by
  induction fuel generalizing count candidate with
  | zero => rfl
  | succ fuel ih => exact congrArg Nat.succ (ih _ _)

/-- Behind the first one only the numbers differ. -/
theorem tried_numbered (base : String) (fuel count : Nat) :
    tried base fuel count (numbered base count) = (List.range' count fuel).map (numbered base) := by
  induction fuel generalizing count with
  | zero => rfl
  | succ fuel ih =>
    rw [tried, ih, List.range'_succ]
    rfl

/-- No id is tried twice. -/
theorem nodup_tried (base : String) (fuel count : Nat) : (tried base fuel count base).Nodup := by
  cases fuel with
  | zero => exact List.nodup_nil
  | succ fuel =>
    rw [tried, tried_numbered]
    refine List.nodup_cons.mpr ⟨?_, List.Nodup.map (numbered_injective base) List.nodup_range'⟩
    intro member
    obtain ⟨n, -, same⟩ := List.mem_map.mp member
    exact numbered_ne base n same

theorem uses_of_firstFree {fuel count : Nat} (taken : used.uses (used.firstFree base fuel count candidate).1 = true) :
    ∀ other ∈ tried base fuel count candidate, used.uses other = true := by
  induction fuel generalizing count candidate with
  | zero => exact fun _ absent => absurd absent List.not_mem_nil
  | succ fuel ih =>
    unfold firstFree at taken
    split at taken
    next inUse => exact List.forall_mem_cons.mpr ⟨inUse, ih taken⟩
    next free => exact absurd taken free

/-- Among more ids than are in use there is one that is not. -/
theorem uses_firstFree (used : UsedIds) (base : String) (count : Nat) :
    used.uses (used.firstFree base (used.seen.length + 1) count base).1 = false := by
  rw [← Bool.not_eq_true]
  intro taken
  have all := uses_of_firstFree taken
  have within : tried base (used.seen.length + 1) count base ⊆ used.seen.map Prod.fst :=
    fun other member => uses_iff.mp (all other member)
  have short := ((nodup_tried base _ count).subperm within).length_le
  rw [length_tried, List.length_map] at short
  exact absurd short (Nat.not_succ_le_self _)

/-- Another id is only given if the first one is in use. -/
theorem uses_of_firstFree_ne {fuel count : Nat} (moved : (used.firstFree base (fuel + 1) count base).1 ≠ base) :
    used.uses base = true := by
  unfold firstFree at moved
  split at moved
  next taken => exact taken
  next => exact absurd rfl moved

/-! ## One heading -/

/-- The id of a heading was not in use. -/
theorem uses_assign_before (given : (used.assign text).1 = some id) : used.uses id = false := by
  unfold assign at given
  simp only at given
  split at given
  · cases given
  · rw [← Option.some.inj given]
    exact uses_firstFree used _ _

/-- Afterwards it is in use, and so are all that were. -/
theorem uses_assign_after (used : UsedIds) (text other : String) :
    (used.assign text).2.uses other = true ↔ used.uses other = true ∨ (used.assign text).1 = some other := by
  unfold assign
  simp only
  split
  next => simp
  next =>
    have base : (used.firstFree (idText text) (used.seen.length + 1) ((used.seen.lookup (idText text)).getD 0)
        (idText text)).1 ≠ idText text → used.uses (idText text) = true := uses_of_firstFree_ne
    generalize used.firstFree (idText text) _ _ _ = found at base
    obtain ⟨id, count⟩ := found
    simp only [uses_iff, Option.some.injEq] at base ⊢
    -- the number of the base is noted, which adds nothing: the base is the id itself or was in use
    by_cases same : id = idText text
    · simp [same, or_comm, eq_comm]
    · have known := base same
      rw [beq_false_of_ne same]
      simp only [Bool.false_eq_true, if_false, List.map_cons, List.mem_cons]
      constructor
      · rintro (rfl | rfl | old)
        · exact .inr rfl
        · exact .inl known
        · exact .inl old
      · rintro (old | rfl)
        · exact .inr (.inr old)
        · exact .inl rfl

end Galley.Heading.UsedIds
