import Galley.Text.Scan
import Mathlib

/-!
# Matches of a pattern

A scan goes over a text from left to right, takes what a reader finds, and goes on behind it. What it finds are the matches
of a pattern: each of them is the first one that begins at or behind the end of the match before it.

* `Pattern`, `MatchesFrom`, `Matches` — the matches of a pattern and where they begin;
* `Reads` — a reader for a pattern;
* `MatchesFrom.unique` — a text has one list of matches only;
* `exists_matches_iff` — a scan finds them;
* `Matches.restrict_iff`, `matches_iff_of_begin` — when it does not matter that no match may begin at some places.
-/

namespace Galley.Text

variable {α : Type} {read? : List Char → Option (α × Nat)} {written behind cs rest : List Char} {mark : α} {pos : Nat}
  {marks others : List (Nat × α)} {mayBegin : Nat → Prop}

/-- What is written in a match, what stands behind it, and what the match means. -/
abbrev Pattern (α : Type) := (written behind : List Char) → α → Prop

variable {pattern : Pattern α}

/-- Whether some text begins with a match. -/
def BeginsWith (pattern : Pattern α) (cs : List Char) : Prop :=
  ∃ written behind mark, written ++ behind = cs ∧ pattern written behind mark

/-- The matches of a pattern from left to right, each with the place where it begins. The next match is looked for behind the
    one before, at the places where one may begin. `pos` is the place of the first character. -/
inductive MatchesFrom (pattern : Pattern α) (mayBegin : Nat → Prop) : Nat → List Char → List (Nat × α) → Prop where
  | done {pos : Nat} : MatchesFrom pattern mayBegin pos [] []
  | found {pos : Nat} {cs written behind : List Char} {mark : α} {marks : List (Nat × α)} (allowed : mayBegin pos)
      (whole : written ++ behind = cs) (here : pattern written behind mark)
      (later : MatchesFrom pattern mayBegin (pos + written.length) behind marks) :
      MatchesFrom pattern mayBegin pos cs ((pos, mark) :: marks)
  | passed {pos : Nat} {c : Char} {rest : List Char} {marks : List (Nat × α)}
      (other : mayBegin pos → ¬ BeginsWith pattern (c :: rest))
      (later : MatchesFrom pattern mayBegin (pos + 1) rest marks) : MatchesFrom pattern mayBegin pos (c :: rest) marks

/-- The matches of a pattern in a text. -/
def Matches (pattern : Pattern α) (mayBegin : Nat → Prop) (cs : List Char) (marks : List (Nat × α)) : Prop :=
  MatchesFrom pattern mayBegin 0 cs marks

/-- A match may begin anywhere. -/
def anywhere : Nat → Prop := fun _ => True

/-- A reader finds the match that a text begins with, and how long it is. No match is empty. -/
structure Reads (read? : List Char → Option (α × Nat)) (pattern : Pattern α) : Prop where
  read_iff : ∀ {cs : List Char} {mark : α} {length : Nat}, read? cs = some (mark, length) ↔
    ∃ written behind, written ++ behind = cs ∧ pattern written behind mark ∧ written.length = length
  filled : ∀ {behind : List Char} {mark : α}, ¬ pattern [] behind mark

/-! ## One list of matches -/

theorem Reads.beginsWith_iff (reads : Reads read? pattern) : BeginsWith pattern cs ↔ (read? cs).isSome := by
  rw [Option.isSome_iff_exists, Prod.exists]
  constructor
  · rintro ⟨written, behind, mark, whole, here⟩
    exact ⟨mark, written.length, reads.read_iff.mpr ⟨written, behind, whole, here, rfl⟩⟩
  · rintro ⟨mark, length, read⟩
    obtain ⟨written, behind, whole, here, -⟩ := reads.read_iff.mp read
    exact ⟨written, behind, mark, whole, here⟩

/-- A text does not begin with two matches. -/
theorem Reads.unique (reads : Reads read? pattern) {written' behind' : List Char} {mark' : α}
    (here : pattern written behind mark) (there : pattern written' behind' mark')
    (same : written ++ behind = written' ++ behind') : written = written' ∧ behind = behind' ∧ mark = mark' := by
  have read := reads.read_iff.mpr ⟨written, behind, rfl, here, rfl⟩
  rw [same, reads.read_iff.mpr ⟨written', behind', rfl, there, rfl⟩] at read
  obtain ⟨rfl, length⟩ := Prod.mk.inj (Option.some.inj read)
  obtain ⟨rfl, rfl⟩ := List.append_inj same length.symm
  exact ⟨rfl, rfl, rfl⟩

theorem Reads.not_beginsWith_nil (reads : Reads read? pattern) : ¬ BeginsWith pattern [] := by
  rintro ⟨written, behind, mark, whole, here⟩
  obtain ⟨rfl, rfl⟩ := List.append_eq_nil_iff.mp whole
  exact reads.filled here

/-- A text has one list of matches. -/
theorem MatchesFrom.unique (reads : Reads read? pattern) (found : MatchesFrom pattern mayBegin pos cs marks)
    (other : MatchesFrom pattern mayBegin pos cs others) : others = marks := by
  -- Both lists begin the same way: where a match is found, no match can have been passed over.
  induction found generalizing others with
  | done =>
    cases other with
    | done => rfl
    | found _ whole here _ => exact absurd ⟨_, _, _, whole, here⟩ reads.not_beginsWith_nil
  | found allowed whole here _ ih =>
    cases other with
    | done => exact absurd ⟨_, _, _, whole, here⟩ reads.not_beginsWith_nil
    | found _ whole' there later =>
      obtain ⟨rfl, rfl, rfl⟩ := reads.unique here there (whole.trans whole'.symm)
      rw [ih later]
    | passed none _ => exact absurd ⟨_, _, _, whole, here⟩ (none allowed)
  | passed none _ ih =>
    cases other with
    | found allowed whole here _ => exact absurd ⟨_, _, _, whole, here⟩ (none allowed)
    | passed _ later => exact ih later

/-! ## The scan -/

/-- A scan finds the matches. -/
theorem exists_matchesFrom_scanAll (reads : Reads read? pattern) (pos : Nat) (cs : List Char) :
    ∃ marks, MatchesFrom pattern anywhere pos cs marks ∧ marks.map Prod.snd = scanAll read? cs := by
  fun_induction scanAll read? cs generalizing pos with
  | case1 => exact ⟨[], .done, rfl⟩
  | case2 c rest mark length read ih =>
    obtain ⟨written, behind, whole, here, rfl⟩ := reads.read_iff.mp read
    -- The match is not empty, so its first character is the one that the scan is at.
    cases written with
    | nil => exact absurd here reads.filled
    | cons d written =>
      obtain ⟨rfl, rfl⟩ := List.cons.inj whole
      have skipped : (written.append behind).drop ((d :: written).length - 1) = behind := List.drop_left
      rw [skipped] at ih ⊢
      obtain ⟨marks, later, same⟩ := ih (pos + (d :: written).length)
      exact ⟨(pos, mark) :: marks, .found trivial whole here later, by rw [List.map_cons, same]⟩
  | case3 c rest nothing ih =>
    obtain ⟨marks, later, same⟩ := ih (pos + 1)
    refine ⟨marks, .passed (fun _ begins => ?_) later, same⟩
    rw [reads.beginsWith_iff, nothing] at begins
    cases begins

/-- What holds of the matches of a text holds of what a scan finds. -/
theorem exists_matches_iff (reads : Reads read? pattern) (holds : List α → Prop) :
    (∃ marks, Matches pattern anywhere cs marks ∧ holds (marks.map Prod.snd)) ↔ holds (scanAll read? cs) := by
  obtain ⟨marks, found, same⟩ := exists_matchesFrom_scanAll reads 0 cs
  constructor
  · rintro ⟨others, other, held⟩
    rwa [found.unique reads other, same] at held
  · intro held
    exact ⟨marks, found, same ▸ held⟩

/-! ## Places where a match may begin -/

/-- Each match begins at a place where one may begin, and something that is a match stands there. `text` is the whole text. -/
theorem MatchesFrom.begins {text : List Char} (found : MatchesFrom pattern mayBegin pos cs marks) (here : text.drop pos = cs) :
    ∀ mark ∈ marks, mayBegin mark.1 ∧ BeginsWith pattern (text.drop mark.1) := by
  induction found with
  | done => simp
  | @found pos cs written behind mark marks allowed whole matched _ ih =>
    refine List.forall_mem_cons.mpr ⟨⟨allowed, written, behind, mark, whole.trans here.symm, matched⟩, ih ?_⟩
    rw [← List.drop_drop, here, ← whole, List.drop_left]
  | passed _ _ ih =>
    refine ih ?_
    rw [← List.drop_drop, here, List.drop_one, List.tail_cons]

/-- Matches that may begin anywhere are those that may only begin at some places, if they do begin there. -/
theorem MatchesFrom.restrict (found : MatchesFrom pattern anywhere pos cs marks) (all : ∀ mark ∈ marks, mayBegin mark.1) :
    MatchesFrom pattern mayBegin pos cs marks := by
  induction found with
  | done => exact .done
  | found _ whole here _ ih =>
    obtain ⟨allowed, others⟩ := List.forall_mem_cons.mp all
    exact .found allowed whole here (ih others)
  | passed other _ ih => exact .passed (fun _ => other trivial) (ih all)

theorem Matches.restrict_iff (found : Matches pattern anywhere cs marks) :
    Matches pattern mayBegin cs marks ↔ ∀ mark ∈ marks, mayBegin mark.1 :=
  ⟨fun restricted mark member => (restricted.begins rfl mark member).1, found.restrict⟩

/-- Where nothing begins with a match there are no matches. -/
theorem matches_nil (none : ∀ i < cs.length, mayBegin i → ¬ BeginsWith pattern (cs.drop i)) :
    Matches pattern mayBegin cs [] := by
  -- Induction on how many characters are left.
  have behind (n : Nat) (pos : Nat) (within : pos + n = cs.length) : MatchesFrom pattern mayBegin pos (cs.drop pos) [] := by
    induction n generalizing pos with
    | zero => rw [List.drop_eq_nil_of_le (by omega)]; exact .done
    | succ n ih =>
      have here := none pos (by omega)
      rw [List.drop_eq_getElem_cons (by omega)] at here ⊢
      exact .passed here (ih (pos + 1) (by omega))
  exact behind cs.length 0 (Nat.zero_add _)

/-- If all matches begin where one may begin, then it does not matter that none may begin elsewhere. -/
theorem matches_iff_of_begin (reads : Reads read? pattern)
    (all : ∀ marks, Matches pattern anywhere cs marks → ∀ mark ∈ marks, mayBegin mark.1) (marks : List (Nat × α)) :
    Matches pattern anywhere cs marks ↔ Matches pattern mayBegin cs marks := by
  have restrict {marks : List (Nat × α)} (found : Matches pattern anywhere cs marks) : Matches pattern mayBegin cs marks :=
    found.restrict_iff.mpr (all marks found)
  refine ⟨restrict, fun restricted => ?_⟩
  obtain ⟨others, found, -⟩ := exists_matchesFrom_scanAll reads 0 cs
  rwa [(restrict found).unique reads restricted]

end Galley.Text
