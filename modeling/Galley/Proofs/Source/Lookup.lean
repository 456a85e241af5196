import Galley.Source.Span
import Mathlib

/-!
# Looking up spans

Bisection finds the span at a position as a search from left to right would, as long as the spans are
ascending and do not overlap.

* `mem_front_iff` — bisection divides the entries at the place where a test begins to fail;
* `Span.Ascending` — spans that follow each other without overlap;
* `spanAt?_eq_find?` — the span at a position is the first one that covers it.
-/

namespace Galley.Source

variable {α : Type}

/-! ## Bisection -/

/-- A test that, once it fails for an entry, fails for all later ones. -/
def FailsFrom (p : α → Bool) (entries : Array α) : Prop :=
  ∀ i j (hi : i < entries.size) (hj : j < entries.size), i ≤ j →
    p entries[j] = true → p entries[i] = true

/-- The bisection ends at an entry of its range. The entries in front of the range stay known to satisfy
    the test, and those behind it to fail. -/
theorem partitionPoint_go_spec {p : α → Bool} {entries : Array α} (fails : FailsFrom p entries)
    (fuel base size : Nat) (enough : size ≤ fuel) (positive : 0 < size)
    (inside : base + size ≤ entries.size)
    (front : ∀ i (h : i < entries.size), i < base → p entries[i] = true)
    (behind : ∀ i (h : i < entries.size), base + size ≤ i → p entries[i] = false) :
    partitionPoint.go p entries fuel base size < entries.size ∧
      (∀ i (h : i < entries.size), i < partitionPoint.go p entries fuel base size →
        p entries[i] = true) ∧
      (∀ i (h : i < entries.size), partitionPoint.go p entries fuel base size < i →
        p entries[i] = false) := by
  induction fuel generalizing base size with
  | zero => omega
  | succ fuel ih =>
    unfold partitionPoint.go
    by_cases several : 1 < size
    · rw [if_pos several]
      have middle : base + size / 2 < entries.size := by omega
      simp only [Array.getElem?_eq_getElem middle]
      by_cases holds : p entries[base + size / 2] = true
      · rw [if_pos holds]
        refine ih (base + size / 2) (size - size / 2) (by omega) (by omega) (by omega) ?_ ?_
        · intro i h before
          exact fails i (base + size / 2) h middle (by omega) holds
        · intro i h after
          exact behind i h (by omega)
      · rw [if_neg holds]
        refine ih base (size - size / 2) (by omega) (by omega) (by omega) front ?_
        intro i h after
        by_cases passes : p entries[i] = true
        · exact absurd (fails (base + size / 2) i middle h (by omega) passes) holds
        · simpa using passes
    · rw [if_neg several]
      refine ⟨by omega, fun i h before => front i h before, fun i h after => behind i h (by omega)⟩

/-- An entry stands in front of the partition point if and only if it satisfies the test. -/
theorem mem_front_iff {p : α → Bool} {entries : Array α} (fails : FailsFrom p entries) (i : Nat)
    (h : i < entries.size) : i < partitionPoint p entries ↔ p entries[i] = true := by
  obtain ⟨inside, front, behind⟩ := partitionPoint_go_spec fails entries.size 0 entries.size
    (Nat.le_refl _) (by omega) (by omega) (by omega) (by omega)
  unfold partitionPoint
  rw [Array.getElem?_eq_getElem inside]
  rcases Nat.lt_trichotomy i (partitionPoint.go p entries entries.size 0 entries.size)
    with before | same | after
  · simp only [front i h before, iff_true]
    omega
  · simp only [← same]
    cases holds : p entries[i] <;> simp
  · simp only [behind i h after, Bool.false_eq_true, iff_false]
    split <;> omega

/-! ## Spans -/

/-- Spans that are not empty and follow each other without overlap. -/
structure Span.Ascending (spans : List Span) : Prop where
  forward : ∀ span ∈ spans, span.start < span.stop
  apart : spans.Pairwise fun a b => a.stop ≤ b.start

theorem Span.Ascending.failsFrom {spans : List Span} (ascending : Span.Ascending spans) (pos : Nat) :
    FailsFrom (fun span => decide (span.stop ≤ pos)) spans.toArray := by
  intro i j hi hj earlier passes
  rcases Nat.eq_or_lt_of_le earlier with same | before
  · subst same
    exact passes
  · simp only [List.size_toArray] at hi hj
    have apart := List.pairwise_iff_getElem.mp ascending.apart i j hi hj before
    have forward := ascending.forward _ (List.getElem_mem hj)
    simp only [List.getElem_toArray, decide_eq_true_eq] at passes ⊢
    omega

/-- Bisection finds the first span that covers a position. -/
theorem spanAt?_eq_find? {spans : List Span} (ascending : Span.Ascending spans) (pos : Nat) :
    spanAt? spans.toArray pos = spans.find? fun span => span.covers pos := by
  have front := mem_front_iff (ascending.failsFrom pos)
  simp only [List.size_toArray, List.getElem_toArray, decide_eq_true_eq] at front
  unfold spanAt?
  generalize partitionPoint (fun span => decide (span.stop ≤ pos)) spans.toArray = place at front ⊢
  rw [List.getElem?_toArray]
  by_cases inside : place < spans.length
  · have ends := mt (front place inside).mpr (Nat.lt_irrefl place)
    rw [List.getElem?_eq_getElem inside]
    by_cases starts : spans[place].start ≤ pos
    · rw [Option.filter_some, if_pos (by simpa using starts), eq_comm,
        List.find?_eq_some_iff_getElem]
      refine ⟨by simp [Span.covers, starts]; omega, place, inside, rfl, fun i before => ?_⟩
      have passed := (front i (by omega)).mp before
      simp [Span.covers]
      omega
    · rw [Option.filter_some, if_neg (by simpa using starts), eq_comm, List.find?_eq_none]
      intro span member
      obtain ⟨i, bound, rfl⟩ := List.mem_iff_getElem.mp member
      rcases Nat.lt_trichotomy i place with before | same | after
      · have passed := (front i bound).mp before
        simp [Span.covers]
        omega
      · subst same
        simp [Span.covers, starts]
      · -- A later span starts where the one at the partition point has stopped.
        have apart := List.pairwise_iff_getElem.mp ascending.apart place i inside bound after
        simp [Span.covers]
        omega
  · rw [List.getElem?_eq_none (by omega), eq_comm]
    simp only [Option.filter_none, List.find?_eq_none]
    intro span member
    obtain ⟨i, bound, rfl⟩ := List.mem_iff_getElem.mp member
    have passed := (front i bound).mp (by omega)
    simp [Span.covers]
    omega

/-- No span is found only where no span lies. -/
theorem not_covers_of_spanAt?_eq_none {spans : List Span} (ascending : Span.Ascending spans) {pos : Nat}
    (none : spanAt? spans.toArray pos = none) {span : Span} (member : span ∈ spans) :
    span.covers pos = false := by
  rw [spanAt?_eq_find? ascending, List.find?_eq_none] at none
  simpa using none span member

end Galley.Source
