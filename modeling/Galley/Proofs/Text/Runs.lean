import Galley.Text.Blank
import Mathlib

/-!
# Runs of characters

Readers take the characters of a class from the front of a text and look at what stops them.

* `takeWhile_before`, `takeWhile_exact` — a run does not go beyond a character that is not of the class;
* `drop_takeWhile`, `dropWhile_eq_cons_iff`, `run_iff` — what stops a run;
* `dropStart?_eq_some_iff` — a text that begins with a given one.
-/

namespace Galley.Text

variable {p : Char → Bool} {cs run rest after : List Char} {c stop : Char}

theorem takeWhile_before (stops : p c = false) (cs rest : List Char) : (cs ++ c :: rest).takeWhile p = cs.takeWhile p := by
  induction cs with
  | nil => exact List.takeWhile_cons_of_neg (by simp [stops])
  | cons d ds ih => rw [List.cons_append, List.takeWhile_cons, List.takeWhile_cons, ih]

theorem takeWhile_exact (all : ∀ d ∈ run, p d = true) (stops : p c = false) (rest : List Char) :
    (run ++ c :: rest).takeWhile p = run := by
  rw [takeWhile_before stops, List.takeWhile_eq_self_iff.mpr all]

theorem drop_takeWhile (p : Char → Bool) (cs : List Char) : cs.drop (cs.takeWhile p).length = cs.dropWhile p := by
  conv => lhs; rhs; rw [← List.takeWhile_append_dropWhile (p := p) (l := cs)]
  exact List.drop_left

theorem bne_of_not_mem (absent : stop ∉ cs) : ∀ c ∈ cs, (c != stop) = true := by
  intro c member
  rw [bne_iff_ne]
  rintro rfl
  exact absent member

/-- A run and the character that stops it. -/
theorem run_iff : cs.takeWhile p = run ∧ cs.drop run.length = c :: after ↔
    run ++ c :: after = cs ∧ (∀ d ∈ run, p d = true) ∧ p c = false := by
  constructor
  · rintro ⟨rfl, behind⟩
    have whole := List.takeWhile_append_dropWhile (p := p) (l := cs)
    rw [drop_takeWhile] at behind
    have stops := List.head?_dropWhile_not p cs
    rw [behind] at whole stops
    exact ⟨whole, fun d member => List.mem_takeWhile_imp member, by simpa using stops⟩
  · rintro ⟨rfl, all, stops⟩
    exact ⟨takeWhile_exact all stops after, List.drop_left⟩

theorem dropWhile_eq_cons_iff : cs.dropWhile p = c :: after ↔
    ∃ run, run ++ c :: after = cs ∧ (∀ d ∈ run, p d = true) ∧ p c = false := by
  constructor
  · intro behind
    exact ⟨cs.takeWhile p, run_iff.mp ⟨rfl, by rw [drop_takeWhile, behind]⟩⟩
  · rintro ⟨run, written⟩
    obtain ⟨taken, behind⟩ := run_iff.mpr written
    rw [← drop_takeWhile, taken, behind]

theorem dropStart?_eq_some_iff {start : String} : dropStart? start cs = some rest ↔ start.toList ++ rest = cs :=
  List.isPrefixOf?_eq_some_iff_append_eq

end Galley.Text
