import Galley.Proofs.Math.Nesting
import Galley.Proofs.Text.Matches
import Galley.Proofs.Text.Runs

/-!
# Valid formulas

A formula is valid if it is not blank, and its braces, its environments and its sized delimiters nest. The checks come in this
order, and the first one that fails gives the error.

* `EnvironmentText`, `SizedText` — what the ends of environments and the sized delimiters look like;
* `reads_environmentMark?`, `reads_sizedMark?` — they are found where they stand;
* `WellFormed`, `Fault` — valid formulas, and what is wrong with the others;
* `check_finds_first_fault` — the checks find exactly this.
-/

namespace Galley.Math

open Galley.Text (Pattern Matches Reads anywhere)

variable {cs written behind rest : List Char} {mark : EnvironmentMark} {isLeft : Bool} {length : Nat}

/-! ## What the marks look like -/

/-- The command at an end of an environment. -/
def endCommand (isBegin : Bool) : List Char := (if isBegin then "\\begin" else "\\end").toList

/-- An end of an environment: the command, blanks, and a name in braces. -/
inductive EnvironmentText : Pattern EnvironmentMark where
  | intro {isBegin : Bool} {blanks name behind : List Char} (blank : ∀ c ∈ blanks, Text.isBlank c = true)
      (inBraces : '\x7d' ∉ name) :
      EnvironmentText (endCommand isBegin ++ (blanks ++ '\x7b' :: (name ++ ['\x7d']))) behind ⟨isBegin, Text.trim name⟩

/-- The command of a sized delimiter. -/
def sizedCommand (isLeft : Bool) : List Char := (if isLeft then "\\left" else "\\right").toList

/-- A sized delimiter: the command with the character behind it, which is no letter, or at the end of the text. -/
inductive SizedText : Pattern Bool where
  | before {isLeft : Bool} {c : Char} {behind : List Char} (other : c.isAlpha = false) :
      SizedText (sizedCommand isLeft ++ [c]) behind isLeft
  | last {isLeft : Bool} : SizedText (sizedCommand isLeft) [] isLeft

/-! ## How the marks are read -/

/-- Of two commands that no text can both begin with, the one is read that the text begins with. -/
theorem command_eq_some_iff {α : Type} {first second : String} {found : α × Nat}
    (apart : ∀ rest rest', first.toList ++ rest ≠ second.toList ++ rest') (read : Bool → List Char → Option (α × Nat)) :
    (match Text.dropStart? first cs, Text.dropStart? second cs with
      | some rest, _ => read true rest
      | none, some rest => read false rest
      | none, none => none) = some found ↔
    ∃ isFirst rest, (if isFirst = true then first else second).toList ++ rest = cs ∧ read isFirst rest = some found := by
  rw [Bool.exists_bool]
  simp only [if_pos, Bool.false_eq_true, if_false, ← Text.dropStart?_eq_some_iff]
  cases front : Text.dropStart? first cs with
  | some rest =>
    have absent : Text.dropStart? second cs = none := by
      rw [Option.eq_none_iff_forall_ne_some]
      intro rest' there
      exact apart rest rest' ((Text.dropStart?_eq_some_iff.mp front).trans (Text.dropStart?_eq_some_iff.mp there).symm)
    simp [absent]
  | none => cases Text.dropStart? second cs <;> simp

theorem endCommands_apart (rest rest' : List Char) : "\\begin".toList ++ rest ≠ "\\end".toList ++ rest' := by
  simp

theorem sizedCommands_apart (rest rest' : List Char) : "\\left".toList ++ rest ≠ "\\right".toList ++ rest' := by
  simp

/-- A name in braces is read with the blanks in front of it. -/
theorem named_eq_some_iff {isBegin : Bool} :
    environmentMark?.named cs isBegin rest = some (mark, length) ↔
      ∃ blanks name behind, blanks ++ '\x7b' :: (name ++ '\x7d' :: behind) = rest ∧
        (∀ c ∈ blanks, Text.isBlank c = true) ∧ '\x7d' ∉ name ∧ mark = ⟨isBegin, Text.trim name⟩ ∧
        length = cs.length - behind.length := by
  unfold environmentMark?.named
  constructor
  · intro read
    split at read
    next body opened =>
      obtain ⟨blanks, rfl, blank, -⟩ := Text.dropWhile_eq_cons_iff.mp opened
      simp only at read
      split at read
      next stop behind closed =>
        obtain ⟨whole, inside, stops⟩ := Text.run_iff.mp ⟨rfl, closed⟩
        obtain rfl : stop = '\x7d' := by simpa using stops
        obtain ⟨rfl, rfl⟩ := Prod.mk.inj (Option.some.inj read)
        refine ⟨blanks, _, behind, by rw [whole], blank, fun member => ?_, rfl, rfl⟩
        exact absurd (inside _ member) (by simp)
      next => cases read
    next => cases read
  · rintro ⟨blanks, name, behind, rfl, blank, inside, rfl, rfl⟩
    have opened : Text.trimStart (blanks ++ '\x7b' :: (name ++ '\x7d' :: behind)) =
        '\x7b' :: (name ++ '\x7d' :: behind) := Text.dropWhile_eq_cons_iff.mpr ⟨blanks, rfl, blank, by decide⟩
    obtain ⟨taken, closed⟩ := Text.run_iff.mpr ⟨rfl (a := name ++ '\x7d' :: behind), Text.bne_of_not_mem inside,
      bne_self_eq_false '\x7d'⟩
    simp only [opened, taken, closed]

/-- Ends of environments are read as they are written. -/
theorem reads_environmentMark? : Reads environmentMark? EnvironmentText where
  read_iff := by
    intro cs mark length
    refine (command_eq_some_iff endCommands_apart (environmentMark?.named cs)).trans ?_
    simp only [named_eq_some_iff]
    constructor
    · rintro ⟨isBegin, rest, rfl, blanks, name, behind, rfl, blank, inside, rfl, rfl⟩
      have here : EnvironmentText (endCommand isBegin ++ _) behind _ := .intro blank inside
      refine ⟨_, behind, ?_, here, ?_⟩
      · simp [endCommand]
      · simp [endCommand]
        omega
    · rintro ⟨written, behind, rfl, @⟨isBegin, blanks, name, _, blank, inside⟩, rfl⟩
      refine ⟨isBegin, _, ?_, blanks, name, behind, rfl, blank, inside, rfl, ?_⟩
      · simp [endCommand]
      · simp only [List.length_append, List.length_cons, List.length_nil]
        omega
  filled := by
    rintro behind mark here
    generalize empty : ([] : List Char) = written at here
    cases here
    simp at empty

/-- Sized delimiters are read as they are written. -/
theorem reads_sizedMark? : Reads sizedMark? SizedText where
  read_iff := by
    intro cs isLeft length
    refine (command_eq_some_iff sizedCommands_apart (sizedMark?.delimiter cs)).trans ?_
    constructor
    · rintro ⟨isLeft, rest, rfl, read⟩
      unfold sizedMark?.delimiter at read
      split at read
      next =>
        obtain ⟨rfl, rfl⟩ := Prod.mk.inj (Option.some.inj read)
        exact ⟨_, [], rfl, .last, by simp⟩
      next c behind =>
        split at read
        next => cases read
        next other =>
          obtain ⟨rfl, rfl⟩ := Prod.mk.inj (Option.some.inj read)
          have here : SizedText (sizedCommand isLeft ++ [c]) behind isLeft := .before (by simpa using other)
          refine ⟨_, behind, ?_, here, ?_⟩
          · simp [sizedCommand]
          · simp only [sizedCommand, List.length_append, List.length_cons, List.length_nil]
            omega
    · rintro ⟨written, behind, rfl, here, rfl⟩
      cases here with
      | @before _ c _ other =>
        refine ⟨isLeft, c :: behind, by simp [sizedCommand], ?_⟩
        simp only [sizedMark?.delimiter, other, Bool.false_eq_true, if_false, List.length_append, List.length_cons,
          List.length_nil, Option.some.injEq, Prod.mk.injEq, true_and]
        omega
      | last => exact ⟨isLeft, [], rfl, by simp [sizedMark?.delimiter]⟩
  filled := by
    rintro behind mark here
    generalize empty : ([] : List Char) = written at here
    cases here with
    | before => simp at empty
    | last => cases mark <;> cases empty

/-! ## Valid formulas -/

variable {mayBegin : Nat → Prop} {tex : List Char} {error : FormulaError}

/-- A valid formula. `mayBegin` says where the ends of environments and the sized delimiters may begin. -/
structure WellFormed (mayBegin : Nat → Prop) (tex : List Char) : Prop where
  filled : ∃ c ∈ tex, Text.isBlank c = false
  bracesNest : Nests BracketPair (braces tex)
  environmentsNest : ∃ marks, Matches EnvironmentText mayBegin tex marks ∧ Nests EnvironmentPair (marks.map Prod.snd)
  delimitersNest : ∃ marks, Matches SizedText mayBegin tex marks ∧ Nests BracketPair (marks.map Prod.snd)

/-- What is wrong with a formula. Each fault is looked for in formulas without the ones before. -/
inductive Fault (mayBegin : Nat → Prop) (tex : List Char) : FormulaError → Prop where
  | empty (blank : ∀ c ∈ tex, Text.isBlank c = true) : Fault mayBegin tex .empty
  | braces (filled : ∃ c ∈ tex, Text.isBlank c = false) (apart : ¬ Nests BracketPair (braces tex)) :
      Fault mayBegin tex .unbalancedBraces
  /-- The first end of an environment that is not the one of the innermost open environment. -/
  | environmentEnd {error : FormulaError} (filled : ∃ c ∈ tex, Text.isBlank c = false)
      (bracesNest : Nests BracketPair (braces tex))
      (fault : ∃ marks, Matches EnvironmentText mayBegin tex marks ∧ EndFault (marks.map Prod.snd) error) :
      Fault mayBegin tex error
  /-- The innermost environment that is left open. -/
  | unclosed {first : EnvironmentMark} {opened : List EnvironmentMark} (filled : ∃ c ∈ tex, Text.isBlank c = false)
      (bracesNest : Nests BracketPair (braces tex))
      (leaves : ∃ marks, Matches EnvironmentText mayBegin tex marks ∧
        Leaves EnvironmentPair (marks.map Prod.snd) (first :: opened)) :
      Fault mayBegin tex (.unclosedEnvironment (.ofList first.name))
  | delimiters (filled : ∃ c ∈ tex, Text.isBlank c = false) (bracesNest : Nests BracketPair (braces tex))
      (environmentsNest : ∃ marks, Matches EnvironmentText mayBegin tex marks ∧ Nests EnvironmentPair (marks.map Prod.snd))
      (apart : ∃ marks, Matches SizedText mayBegin tex marks ∧ ¬ Nests BracketPair (marks.map Prod.snd)) :
      Fault mayBegin tex .unbalancedDelimiters

/-! ## What the checks find -/

theorem isBlankText_eq_false_iff : Text.isBlankText cs = false ↔ ∃ c ∈ cs, Text.isBlank c = false := by
  simp [Text.isBlankText]

theorem openEnvironments_eq_nil_iff {marks : List EnvironmentMark} :
    openEnvironments [] marks = .ok [] ↔ Nests EnvironmentPair marks := by
  simp [openEnvironments_eq_ok_iff, leaves_nil_iff]

/-- The checks that come one after the other. -/
theorem check_eq (tex : String) : check tex =
    if Text.isBlankText tex.toList then .error .empty
    else if braceDepth? 0 tex.toList ≠ some 0 then .error .unbalancedBraces
    else match openEnvironments [] (environmentMarks tex.toList) with
      | .error error => .error error
      | .ok (name :: _) => .error (.unclosedEnvironment (.ofList name))
      | .ok [] => if sizedDepth? 0 (sizedMarks tex.toList) ≠ some 0 then .error .unbalancedDelimiters else .ok () := by
  unfold check
  simp only [bind, Except.bind, throw, throwThe, MonadExceptOf.throw, pure, Except.pure, bne_iff_ne]
  split <;> [rfl; split <;> [rfl; skip]]
  cases openEnvironments [] (environmentMarks tex.toList) with
  | error => rfl
  | ok names => cases names <;> rfl

theorem exists_environments_iff (holds : List EnvironmentMark → Prop) :
    (∃ marks, Matches EnvironmentText anywhere tex marks ∧ holds (marks.map Prod.snd)) ↔ holds (environmentMarks tex) :=
  Text.exists_matches_iff reads_environmentMark? holds

theorem exists_delimiters_iff (holds : List Bool → Prop) :
    (∃ marks, Matches SizedText anywhere tex marks ∧ holds (marks.map Prod.snd)) ↔ holds (sizedMarks tex) :=
  Text.exists_matches_iff reads_sizedMark? holds

theorem braceDepth?_eq_zero_iff : braceDepth? 0 tex = some 0 ↔ Nests BracketPair (braces tex) := by
  rw [braceDepth?_eq, sizedDepth?_eq_zero_iff]

/-- A valid formula passes. -/
theorem WellFormed.check_eq {tex : String} (valid : WellFormed anywhere tex.toList) : check tex = .ok () := by
  obtain ⟨filled, bracesNest, environmentsNest, delimitersNest⟩ := valid
  rw [exists_environments_iff, ← openEnvironments_eq_nil_iff] at environmentsNest
  rw [exists_delimiters_iff, ← sizedDepth?_eq_zero_iff] at delimitersNest
  rw [Math.check_eq, isBlankText_eq_false_iff.mpr filled, braceDepth?_eq_zero_iff.mpr bracesNest, environmentsNest,
    delimitersNest]
  rfl

/-- A formula with a fault does not pass, and the fault is what it is refused for. -/
theorem Fault.check_eq {tex : String} (fault : Fault anywhere tex.toList error) : check tex = .error error := by
  rw [Math.check_eq]
  cases fault with
  | empty blank =>
    have all : Text.isBlankText tex.toList = true := List.all_eq_true.mpr blank
    rw [if_pos all]
  | braces filled apart =>
    rw [if_neg (by simp [isBlankText_eq_false_iff.mpr filled]), if_pos (braceDepth?_eq_zero_iff.not.mpr apart)]
  | environmentEnd filled bracesNest fault =>
    rw [exists_environments_iff (EndFault · error)] at fault
    rw [isBlankText_eq_false_iff.mpr filled, braceDepth?_eq_zero_iff.mpr bracesNest, fault.openEnvironments_eq]
    rfl
  | @unclosed first opened filled bracesNest leaves =>
    rw [exists_environments_iff (Leaves EnvironmentPair · (first :: opened))] at leaves
    rw [isBlankText_eq_false_iff.mpr filled, braceDepth?_eq_zero_iff.mpr bracesNest,
      openEnvironments_eq_ok_iff.mpr ⟨_, leaves, rfl⟩]
    rfl
  | delimiters filled bracesNest environmentsNest apart =>
    rw [exists_environments_iff, ← openEnvironments_eq_nil_iff] at environmentsNest
    rw [exists_delimiters_iff (¬ Nests BracketPair ·), ← sizedDepth?_eq_zero_iff] at apart
    rw [isBlankText_eq_false_iff.mpr filled, braceDepth?_eq_zero_iff.mpr bracesNest, environmentsNest]
    simp only [Bool.false_eq_true, if_false, ne_eq, not_true_eq_false, if_pos apart]

/-- A formula is valid, or it has a fault. -/
theorem wellFormed_or_fault (tex : List Char) : WellFormed anywhere tex ∨ ∃ error, Fault anywhere tex error := by
  by_cases filled : ∃ c ∈ tex, Text.isBlank c = false
  swap
  · exact .inr ⟨_, .empty (by simpa using filled)⟩
  by_cases bracesNest : Nests BracketPair (braces tex)
  swap
  · exact .inr ⟨_, .braces filled bracesNest⟩
  cases read : openEnvironments [] (environmentMarks tex) with
  | error error =>
    have fault := openEnvironments_eq_error_iff.mp read
    exact .inr ⟨_, .environmentEnd filled bracesNest ((exists_environments_iff (EndFault · error)).mpr fault)⟩
  | ok names =>
    obtain ⟨opened, leaves, rfl⟩ := openEnvironments_eq_ok_iff.mp read
    cases opened with
    | cons first opened =>
      exact .inr ⟨_, .unclosed filled bracesNest ((exists_environments_iff (Leaves EnvironmentPair · _)).mpr leaves)⟩
    | nil =>
      have environmentsNest := (exists_environments_iff _).mpr (leaves_nil_iff.mp leaves)
      by_cases delimitersNest : Nests BracketPair (sizedMarks tex)
      · exact .inl ⟨filled, bracesNest, environmentsNest, (exists_delimiters_iff _).mpr delimitersNest⟩
      · exact .inr ⟨_, .delimiters filled bracesNest environmentsNest
          ((exists_delimiters_iff (¬ Nests BracketPair ·)).mpr delimitersNest)⟩

theorem check_eq_ok_iff {tex : String} : check tex = .ok () ↔ WellFormed anywhere tex.toList := by
  refine ⟨fun passed => ?_, fun valid => valid.check_eq⟩
  rcases wellFormed_or_fault tex.toList with valid | ⟨error, fault⟩
  · exact valid
  · cases fault.check_eq.symm.trans passed

theorem check_eq_error_iff {tex : String} : check tex = .error error ↔ Fault anywhere tex.toList error := by
  refine ⟨fun failed => ?_, fun fault => fault.check_eq⟩
  rcases wellFormed_or_fault tex.toList with valid | ⟨found, fault⟩
  · cases valid.check_eq.symm.trans failed
  · obtain rfl := Except.error.inj (fault.check_eq.symm.trans failed)
    exact fault

/-- The checks pass exactly the valid formulas. Every other formula is refused for the first thing that is wrong with it. -/
theorem check_finds_first_fault (tex : String) :
    (check tex = .ok () ↔ WellFormed anywhere tex.toList) ∧
      ∀ error, check tex = .error error ↔ Fault anywhere tex.toList error :=
  ⟨check_eq_ok_iff, fun _ => check_eq_error_iff⟩

end Galley.Math
