import Galley.Proofs.Markdown.Silent
import Galley.Text.Case

/-!
# Letter case beside private use

The tables of letter case name no character for private use. So small letters and folding leave tokens as they
are, and make none.

* `key_le_of_lastAtMost?` — what a bisection finds;
* `isPrivateUse_lowerSingle` — small letters are not for private use;
* `escapes_foldChar` — texts with their case folded.
-/

namespace Galley.Text

open Galley.Source (Marking Escapes isPrivateUse isTokenChar silent_of_plain)

/-- What a bisection finds is an entry of the table with a small enough key. -/
theorem key_le_of_lastAtMost? {α : Type} {key : α → Nat} {table : Array α} {n : Nat} {entry : α}
    (found : lastAtMost? key table n = some entry) : entry ∈ table ∧ key entry ≤ n := by
  -- The entry in front of `lo` was looked at, if there is one.
  have go : ∀ fuel lo hi, (∀ e, 0 < lo → table[lo - 1]? = some e → key e ≤ n) →
      lastAtMost?.go key table n fuel lo hi = some entry → entry ∈ table ∧ key entry ≤ n := by
    intro fuel
    induction fuel with
    | zero =>
      intro lo hi low found
      unfold lastAtMost?.go at found
      split at found
      · cases found
      · exact ⟨Array.mem_of_getElem? found, low entry (by omega) found⟩
    | succ fuel ih =>
      intro lo hi low found
      unfold lastAtMost?.go at found
      split at found
      · simp only at found
        split at found
        next middle here =>
          split at found
          next small =>
            refine ih _ _ (fun e _ same => ?_) found
            rw [Nat.add_sub_cancel, here] at same
            rw [← Option.some.inj same]
            exact small
          next => exact ih _ _ low found
        next => cases found
      · split at found
        · cases found
        · exact ⟨Array.mem_of_getElem? found, low entry (by omega) found⟩
  exact go table.size 0 table.size (fun _ absurd' => absurd absurd' (Nat.lt_irrefl 0)) found

theorem toNat_ofNat_le (n : Nat) : (Char.ofNat n).toNat = n ∨ (Char.ofNat n).toNat = 0 := by
  unfold Char.ofNat
  split
  · exact Or.inl rfl
  · exact Or.inr rfl

/-! ## Tables -/

/-- A run of capitals that meets no character for private use, and neither do its small letters. -/
def CaseRun.IsApart (run : CaseRun) : Prop :=
  (run.hi < 0xe000 ∨ 0xf900 ≤ run.lo) ∧ (run.hi + run.distance < 0xe000 ∨ 0xf900 ≤ run.lo + run.distance)

instance CaseRun.decidableIsApart (run : CaseRun) : Decidable run.IsApart :=
  inferInstanceAs (Decidable (_ ∧ _))

/-- A character that is folded is not for private use, and neither is what it becomes. -/
def IsFoldedApart (entry : Nat × List Char) : Prop :=
  (entry.1 < 0xe000 ∨ 0xf900 ≤ entry.1) ∧ entry.2.all (fun c => !isPrivateUse c) = true

instance decidableIsFoldedApart (entry : Nat × List Char) : Decidable (IsFoldedApart entry) :=
  inferInstanceAs (Decidable (_ ∧ _))

section rows

variable {p : List Char → Prop} {row : List Char} {rows : List String}

theorem forall_rowEntries_nil : ∀ cs ∈ rowEntries [], p cs :=
  fun _ absent => absurd absent List.not_mem_nil

/-- A row is looked at through its characters, for a text that is written out is slow to take apart. -/
theorem forall_rowEntries_cons [DecidablePred p]
    (first : ((row.splitOn ' ').all fun cs => decide (p cs)) = true)
    (others : ∀ cs ∈ rowEntries rows, p cs) : ∀ cs ∈ rowEntries (.ofList row :: rows), p cs := by
  have entries : rowEntries (.ofList row :: rows) = row.splitOn ' ' ++ rowEntries rows := by
    rw [rowEntries, List.flatMap_cons, String.toList_ofList]
    rfl
  intro cs member
  rw [entries] at member
  rcases List.mem_append.mp member with here | later
  · exact of_decide_eq_true (List.all_eq_true.mp first cs here)
  · exact others cs later

end rows

/-- No run of capitals meets the characters for private use, and neither do their small letters. -/
theorem caseRuns_apart : ∀ run ∈ caseRuns.toList, run.IsApart := by
  refine List.forall_mem_map.mpr ?_
  dsimp only [lowercaseRows]
  repeat refine forall_rowEntries_cons (by decide +kernel) ?_
  exact forall_rowEntries_nil

/-- No character that is folded is for private use, and neither is what it becomes. -/
theorem foldTable_apart : ∀ entry ∈ foldTable.toList, IsFoldedApart entry := by
  refine List.forall_mem_map.mpr ?_
  dsimp only [foldRows]
  repeat refine forall_rowEntries_cons (by decide +kernel) ?_
  exact forall_rowEntries_nil

/-- A small letter that differs from its capital is not for private use. -/
theorem isPrivateUse_lowerSingle (c : Char) : lowerSingle c = c ∨ isPrivateUse (lowerSingle c) = false := by
  unfold lowerSingle
  split
  next ascii =>
    refine Or.inr ?_
    have all : ∀ n < 128, isPrivateUse (Char.ofNat n).toLower = false := by decide
    have here := all c.toNat ascii
    rw [Char.ofNat_toNat] at here
    exact here
  next =>
  split
  next run found =>
    obtain ⟨member, low⟩ := key_le_of_lastAtMost? found
    split
    next inside =>
      refine Or.inr ?_
      simp only [Bool.and_eq_true, decide_eq_true_eq] at inside
      have apart := (caseRuns_apart run (Array.mem_toList_iff.mpr member)).2
      simp only [isPrivateUse, Bool.and_eq_false_iff, decide_eq_false_iff_not]
      rcases toNat_ofNat_le (Int.toNat (c.toNat + run.distance)) with same | zero <;> omega
    next => exact Or.inl rfl
  next => exact Or.inl rfl

theorem opening_not_mem_lowerChar {m : Marking} {c : Char} (other : c ≠ m.opening) :
    m.opening ∉ lowerChar c := by
  unfold lowerChar
  split
  · exact silent_of_plain (a := "i\u0307") (by decide)
  · rw [List.mem_singleton]
    rcases isPrivateUse_lowerSingle c with same | apart
    · rw [same]
      exact fun same => other same.symm
    · rintro same
      rw [← same, m.openingPrivate] at apart
      cases apart

theorem lowerSingle_of_isPrivateUse {c : Char} (isPrivate : isPrivateUse c = true) : lowerSingle c = c := by
  simp only [isPrivateUse, Bool.and_eq_true, decide_eq_true_eq] at isPrivate
  unfold lowerSingle
  rw [if_neg (by omega)]
  split
  next run found =>
    obtain ⟨member, low⟩ := key_le_of_lastAtMost? found
    have apart := (caseRuns_apart run (Array.mem_toList_iff.mpr member)).1
    refine if_neg fun inside => ?_
    simp only [Bool.and_eq_true, decide_eq_true_eq] at inside
    omega
  next => rfl

/-- Folding the case of a text leaves its tokens as they are, and makes none. -/
theorem escapes_foldChar {m : Marking} : Escapes m foldChar where
  plain c inToken := by
    unfold foldChar
    cases isPrivate : isPrivateUse c with
    | false =>
      have digit : c.isDigit = true := by simpa [isTokenChar, isPrivate] using inToken
      have ascii : c.toNat < 128 := by
        simp only [Char.isDigit, Bool.and_eq_true, decide_eq_true_eq, UInt32.le_iff_toNat_le] at digit
        exact Nat.lt_of_le_of_lt digit.2 (by decide)
      have all : ∀ n < 128, (Char.ofNat n).isDigit = true → (Char.ofNat n).toLower = Char.ofNat n := by decide
      have here := all c.toNat ascii
      rw [Char.ofNat_toNat] at here
      rw [if_pos ascii, here digit]
    | true =>
      have lower : lowerChar c = [c] := by
        simp only [isPrivateUse, Bool.and_eq_true, decide_eq_true_eq] at isPrivate
        unfold lowerChar
        rw [if_neg (by simp only [beq_iff_eq]; omega)]
        rw [lowerSingle_of_isPrivateUse (by simpa [isPrivateUse] using isPrivate)]
      simp only [isPrivateUse, Bool.and_eq_true, decide_eq_true_eq] at isPrivate
      rw [if_neg (by omega)]
      split
      next n folded found =>
        obtain ⟨member, -⟩ := key_le_of_lastAtMost? found
        have apart := (foldTable_apart _ (Array.mem_toList_iff.mpr member)).1
        rw [if_neg, lower]
        simp only [beq_iff_eq]
        omega
      next => exact lower
  fresh c other := by
    have apart : c ≠ m.opening := by
      rintro rfl
      simp [isTokenChar, m.openingPrivate] at other
    unfold foldChar
    split
    next ascii =>
      rw [List.mem_singleton]
      rintro same
      have all : ∀ n < 128, isPrivateUse (Char.ofNat n).toLower = false := by decide
      have here := all c.toNat ascii
      rw [Char.ofNat_toNat, ← same, m.openingPrivate] at here
      cases here
    split
    next n folded found =>
      split
      · obtain ⟨member, -⟩ := key_le_of_lastAtMost? found
        have plain := (foldTable_apart _ (Array.mem_toList_iff.mpr member)).2
        exact Marking.opening_not_mem fun c member => by simpa using List.all_eq_true.mp plain c member
      · exact opening_not_mem_lowerChar apart
    next => exact opening_not_mem_lowerChar apart

end Galley.Text
