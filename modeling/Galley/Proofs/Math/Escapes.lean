import Galley.Proofs.Math.Validity

/-!
# Escapes in formulas

A backslash takes the next character along, so the second one of a line break is no command, whatever letters follow it. The
braces are read that way. Environments and sized delimiters are looked for in the text itself: there a line break with the
letters of a command behind it is read as that command.

* `Taken`, `taken_behind_iff` — the characters that a backslash takes along;
* `HasBrokenMark` — a line break that is read as a mark, `hasBrokenMark_iff`;
* `CountsUntaken` — all marks that count begin with a backslash that is not taken along;
* `checks_share_escapes` — without such line breaks, the marks that count are those of the formula with its escapes;
* `line_break_opens_delimiter` — what such a line break does.
-/

namespace Galley.Math

open Galley.Text (BeginsWith Matches anywhere)

variable {tex cs : List Char} {i : Nat}

/-- A backslash takes the character at a place along, as the braces are read. -/
def Taken (tex : List Char) (i : Nat) : Prop := (tex.take i).foldl takes false = true

instance decidableTaken (tex : List Char) (i : Nat) : Decidable (Taken tex i) := inferInstanceAs (Decidable (_ = true))

/-- The places where a command may begin. -/
def untaken (tex : List Char) : Nat → Prop := fun i => ¬ Taken tex i

instance decidableUntaken (tex : List Char) : DecidablePred (untaken tex) := fun _ => inferInstanceAs (Decidable (¬ _))

/-- A text begins with an end of an environment or with a sized delimiter. -/
def BeginsMark (cs : List Char) : Prop := BeginsWith EnvironmentText cs ∨ BeginsWith SizedText cs

instance decidableBeginsEnvironment (cs : List Char) : Decidable (BeginsWith EnvironmentText cs) :=
  decidable_of_iff _ reads_environmentMark?.beginsWith_iff.symm

instance decidableBeginsSized (cs : List Char) : Decidable (BeginsWith SizedText cs) :=
  decidable_of_iff _ reads_sizedMark?.beginsWith_iff.symm

instance decidableBeginsMark (cs : List Char) : Decidable (BeginsMark cs) := inferInstanceAs (Decidable (_ ∨ _))

/-- A line break is followed by letters and more that are a mark together with its second backslash. -/
def HasBrokenMark (tex : List Char) : Prop :=
  ∃ before after, before ++ '\\' :: '\\' :: after = tex ∧ ¬ Taken tex before.length ∧ BeginsMark ('\\' :: after)

/-- A character is taken along if a backslash stands in front of it that is not taken along itself. -/
theorem taken_behind_iff (before : List Char) (c : Char) (after : List Char) :
    Taken (before ++ c :: after) (before.length + 1) ↔ c = '\\' ∧ ¬ Taken (before ++ c :: after) before.length := by
  have upTo : (before ++ c :: after).take (before.length + 1) = before ++ [c] := by
    rw [List.take_length_add_append, List.take_succ_cons, List.take_zero]
  unfold Taken
  rw [upTo, List.take_left, List.foldl_append, List.foldl_cons, List.foldl_nil, takes]
  cases before.foldl takes false <;> simp

theorem BeginsMark.backslash (begins : BeginsMark cs) : ∃ rest, cs = '\\' :: rest := by
  rcases begins with ⟨_, _, mark, rfl, here⟩ | ⟨_, _, isLeft, rfl, here⟩
  · cases here with
    | @intro isBegin => cases isBegin <;> exact ⟨_, rfl⟩
  · cases here <;> cases isLeft <;> exact ⟨_, rfl⟩

/-- A mark that begins with a character that is taken along is the rest of a line break with what follows it. -/
theorem hasBrokenMark_iff : HasBrokenMark tex ↔ ∃ i < tex.length, Taken tex i ∧ BeginsMark (tex.drop i) := by
  constructor
  · rintro ⟨before, after, rfl, free, begins⟩
    refine ⟨before.length + 1, by simp, (taken_behind_iff _ _ _).mpr ⟨rfl, free⟩, ?_⟩
    rwa [List.drop_length_add_append, List.drop_one, List.tail_cons]
  · rintro ⟨i, within, taken, begins⟩
    cases i with
    -- nothing stands in front of the first character
    | zero => cases taken
    | succ i =>
      have whole : tex.take i ++ tex[i] :: tex.drop (i + 1) = tex := by
        rw [List.getElem_cons_drop, List.take_append_drop]
      have length : (tex.take i).length = i := List.length_take_of_le (by omega)
      rw [← whole] at taken
      obtain ⟨slash, free⟩ := (taken_behind_iff (tex.take i) _ _).mp (by rwa [length])
      obtain ⟨after, behind⟩ := begins.backslash
      rw [slash, behind] at whole
      rw [behind] at begins
      rw [slash, behind, whole] at free
      exact ⟨tex.take i, after, whole, free, begins⟩

instance decidableHasBrokenMark (tex : List Char) : Decidable (HasBrokenMark tex) :=
  decidable_of_iff _ hasBrokenMark_iff.symm

/-! ## The marks that count -/

/-- All ends of environments and all sized delimiters that count begin with a backslash that is not taken along. -/
structure CountsUntaken (tex : List Char) : Prop where
  environments : ∀ marks, Matches EnvironmentText anywhere tex marks → ∀ mark ∈ marks, ¬ Taken tex mark.1
  delimiters : ∀ marks, Matches SizedText anywhere tex marks → ∀ mark ∈ marks, ¬ Taken tex mark.1

/-- What counts although it is taken along is the rest of a line break. -/
theorem countsUntaken_of_clear (clear : ¬ HasBrokenMark tex) : CountsUntaken tex := by
  have free (i : Nat) (begins : BeginsMark (tex.drop i)) : ¬ Taken tex i := by
    intro taken
    obtain ⟨rest, behind⟩ := begins.backslash
    have within : i < tex.length := by
      by_contra beyond
      rw [List.drop_eq_nil_of_le (by omega)] at behind
      cases behind
    exact clear (hasBrokenMark_iff.mpr ⟨i, within, taken, begins⟩)
  exact ⟨fun _ found mark member => free mark.1 (.inl (found.begins rfl mark member).2),
    fun _ found mark member => free mark.1 (.inr (found.begins rfl mark member).2)⟩

variable {here there : Nat → Prop} {error : FormulaError}

/-- Whether a formula is valid depends on the marks that count only. -/
theorem WellFormed.of_same (environments : ∀ marks, Matches EnvironmentText here tex marks ↔ Matches EnvironmentText there tex marks)
    (delimiters : ∀ marks, Matches SizedText here tex marks ↔ Matches SizedText there tex marks)
    (valid : WellFormed here tex) : WellFormed there tex := by
  obtain ⟨filled, bracesNest, environmentsNest, delimitersNest⟩ := valid
  simp only [environments] at environmentsNest
  simp only [delimiters] at delimitersNest
  exact ⟨filled, bracesNest, environmentsNest, delimitersNest⟩

/-- So does what is wrong with it. -/
theorem Fault.of_same (environments : ∀ marks, Matches EnvironmentText here tex marks ↔ Matches EnvironmentText there tex marks)
    (delimiters : ∀ marks, Matches SizedText here tex marks ↔ Matches SizedText there tex marks)
    (fault : Fault here tex error) : Fault there tex error := by
  cases fault with
  | empty blank => exact .empty blank
  | braces filled apart => exact .braces filled apart
  | environmentEnd filled bracesNest fault =>
    simp only [environments] at fault
    exact .environmentEnd filled bracesNest fault
  | unclosed filled bracesNest leaves =>
    simp only [environments] at leaves
    exact .unclosed filled bracesNest leaves
  | delimiters filled bracesNest environmentsNest apart =>
    simp only [environments] at environmentsNest
    simp only [delimiters] at apart
    exact .delimiters filled bracesNest environmentsNest apart

/-- Where no mark counts that is taken along, it does not matter that none may. -/
theorem CountsUntaken.environments_iff (counts : CountsUntaken tex) (marks : List (Nat × EnvironmentMark)) :
    Matches EnvironmentText anywhere tex marks ↔ Matches EnvironmentText (untaken tex) tex marks :=
  Text.matches_iff_of_begin reads_environmentMark? counts.environments marks

theorem CountsUntaken.delimiters_iff (counts : CountsUntaken tex) (marks : List (Nat × Bool)) :
    Matches SizedText anywhere tex marks ↔ Matches SizedText (untaken tex) tex marks :=
  Text.matches_iff_of_begin reads_sizedMark? counts.delimiters marks

theorem CountsUntaken.wellFormed_iff (counts : CountsUntaken tex) : WellFormed anywhere tex ↔ WellFormed (untaken tex) tex :=
  ⟨.of_same counts.environments_iff counts.delimiters_iff,
    .of_same (fun marks => (counts.environments_iff marks).symm) fun marks => (counts.delimiters_iff marks).symm⟩

theorem CountsUntaken.fault_iff (counts : CountsUntaken tex) : Fault anywhere tex error ↔ Fault (untaken tex) tex error :=
  ⟨.of_same counts.environments_iff counts.delimiters_iff,
    .of_same (fun marks => (counts.environments_iff marks).symm) fun marks => (counts.delimiters_iff marks).symm⟩

/-- A mark counts although its backslash is taken along only where a line break is read as a mark. Where no such mark counts,
    the checks find what is wrong with the formula when nothing that is taken along can be a command. -/
theorem checks_share_escapes (tex : String) :
    (¬ HasBrokenMark tex.toList → CountsUntaken tex.toList) ∧
      (CountsUntaken tex.toList →
        (check tex = .ok () ↔ WellFormed (untaken tex.toList) tex.toList) ∧
        ∀ error, check tex = .error error ↔ Fault (untaken tex.toList) tex.toList error) := by
  refine ⟨countsUntaken_of_clear, fun counts => ⟨?_, fun error => ?_⟩⟩
  · rw [check_eq_ok_iff, counts.wellFormed_iff]
  · rw [check_eq_error_iff, counts.fault_iff]

/-- A line break with a blank behind it is no sized delimiter, and those of the formula are balanced. -/
theorem line_break_in_delimiters :
    let tex := "\\left( a \\\\ b \\right)"
    ¬ HasBrokenMark tex.toList ∧ CountsUntaken tex.toList ∧ WellFormed (untaken tex.toList) tex.toList := by
  intro tex
  have clear : ¬ HasBrokenMark tex.toList := by decide +kernel
  have passed : check tex = .ok () := by decide +kernel
  have counts := (checks_share_escapes tex).1 clear
  exact ⟨clear, counts, ((checks_share_escapes tex).2 counts).1.mp passed⟩

/-- A line break that is read as a sized delimiter makes a valid formula fail. -/
theorem line_break_opens_delimiter :
    let tex := "\\\\left("
    HasBrokenMark tex.toList ∧ ¬ CountsUntaken tex.toList ∧ WellFormed (untaken tex.toList) tex.toList ∧
      check tex = .error .unbalancedDelimiters := by
  intro tex
  have broken : HasBrokenMark tex.toList := by decide +kernel
  have failed : check tex = .error .unbalancedDelimiters := by decide +kernel
  have valid : WellFormed (untaken tex.toList) tex.toList := {
    filled := isBlankText_eq_false_iff.mp (by decide)
    bracesNest := sizedDepth?_eq_zero_iff.mp (by decide)
    environmentsNest := ⟨[], Text.matches_nil (by decide +kernel), .nil⟩
    delimitersNest := ⟨[], Text.matches_nil (by decide +kernel), .nil⟩ }
  refine ⟨broken, fun counts => ?_, valid, failed⟩
  cases (counts.wellFormed_iff.mpr valid).check_eq.symm.trans failed

end Galley.Math
