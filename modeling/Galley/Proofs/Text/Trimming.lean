import Galley.Text.Blank
import Mathlib

/-!
# Trimmed texts

* `dropEndWhile_append`, `trim_append`, `trim_append_left` — what is cut off does not matter;
* `trim_eq_nil_iff`, `trim_trim` — when nothing is left, and that a trimmed text stays as it is;
* `exists_trim` — what is cut off are blanks;
* `not_isBlank_of_head?_trim`, `not_isBlank_of_getLast?_trim` — a trimmed text begins and ends with none;
* `dropLineEnd_append` — a line and its end.
-/

namespace Galley.Text

variable {p : Char → Bool} {cs front back : List Char}

/-- What the text ends with can be cut off before. -/
theorem dropEndWhile_append (cs : List Char) (all : ∀ c ∈ back, p c = true) :
    dropEndWhile p (cs ++ back) = dropEndWhile p cs := by
  unfold dropEndWhile
  rw [List.reverse_append, List.dropWhile_append_of_pos fun c member => all c (List.mem_reverse.mp member)]

theorem dropEndWhile_prefix (p : Char → Bool) (cs : List Char) : dropEndWhile p cs <+: cs := by
  unfold dropEndWhile
  rw [← List.reverse_suffix, List.reverse_reverse]
  exact List.dropWhile_suffix p

/-! ## Blanks -/

theorem trim_append_left (blank : ∀ c ∈ front, isBlank c = true) (cs : List Char) : trim (front ++ cs) = trim cs := by
  rw [trim, trimStart, List.dropWhile_append_of_pos blank]
  rfl

theorem trim_append (cs : List Char) (blank : ∀ c ∈ back, isBlank c = true) : trim (cs ++ back) = trim cs := by
  unfold trim trimStart trimEnd
  rw [List.dropWhile_append]
  split
  next all =>
    rw [List.isEmpty_iff.mp all, List.dropWhile_eq_nil_iff.mpr blank]
  next => exact dropEndWhile_append _ blank

theorem trim_eq_nil_iff : trim cs = [] ↔ isBlankText cs = true := by
  simp only [trim, trimEnd, dropEndWhile, trimStart, isBlankText, List.reverse_eq_nil_iff, List.dropWhile_eq_nil_iff,
    List.mem_reverse, List.all_eq_true]
  refine ⟨fun left c member => ?_, fun blank c member => blank c ((List.dropWhile_suffix _).mem member)⟩
  by_cases kept : c ∈ cs.dropWhile isBlank
  · exact left c kept
  · rw [← List.takeWhile_append_dropWhile (p := isBlank) (l := cs)] at member
    exact List.mem_takeWhile_imp ((List.mem_append.mp member).resolve_right kept)

/-- A trimmed text begins with no blank. -/
theorem trimStart_trim (cs : List Char) : trimStart (trim cs) = trim cs := by
  cases trimmed : trim cs with
  | nil => rfl
  | cons c rest =>
    -- It begins as the text without its first blanks does.
    obtain ⟨back, whole⟩ := dropEndWhile_prefix isBlank (trimStart cs)
    have begins : trimStart cs = c :: (rest ++ back) := by
      rw [← whole, ← trimEnd, ← trim, trimmed, List.cons_append]
    have noBlank : isBlank c = false := by
      have first := List.head?_dropWhile_not isBlank cs
      rwa [← trimStart, begins] at first
    rw [trimStart, List.dropWhile_cons_of_neg (by simp [noBlank])]

theorem trim_trim (cs : List Char) : trim (trim cs) = trim cs := by
  rw [trim, trimStart_trim, trim, trimEnd, trimEnd, dropEndWhile, dropEndWhile, List.reverse_reverse,
    List.dropWhile_idempotent]

/-- A text is its trimmed one between blanks. -/
theorem exists_trim (cs : List Char) : ∃ front back, cs = front ++ (trim cs ++ back) ∧
    (∀ c ∈ front, isBlank c = true) ∧ ∀ c ∈ back, isBlank c = true := by
  refine ⟨cs.takeWhile isBlank, ((trimStart cs).reverse.takeWhile isBlank).reverse, ?_,
    fun c member => List.mem_takeWhile_imp member,
    fun c member => List.mem_takeWhile_imp (List.mem_reverse.mp member)⟩
  rw [trim, trimEnd, dropEndWhile, ← List.reverse_append, List.takeWhile_append_dropWhile, List.reverse_reverse, trimStart,
    List.takeWhile_append_dropWhile]

theorem mem_of_mem_trim {c : Char} (member : c ∈ trim cs) : c ∈ cs := by
  obtain ⟨front, back, whole, -⟩ := exists_trim cs
  rw [whole]
  simp [member]

theorem not_isBlank_of_head?_trim {c : Char} (first : (trim cs).head? = some c) : isBlank c = false := by
  have begins := List.head?_dropWhile_not isBlank (trim cs)
  rwa [← trimStart, trimStart_trim, first] at begins

theorem not_isBlank_of_getLast?_trim {c : Char} (last : (trim cs).getLast? = some c) : isBlank c = false := by
  have begins := List.head?_dropWhile_not isBlank (trimStart cs).reverse
  rwa [← List.getLast?_reverse, ← dropEndWhile, ← trimEnd, ← trim, last] at begins

/-! ## Ends of lines -/

/-- A line ends with a line feed, with a carriage return and a line feed, or with neither. -/
theorem dropLineEnd_append (line : List Char) : ∃ back, line = dropLineEnd line ++ back ∧ ∀ c ∈ back, c = '\r' ∨ c = '\n' := by
  unfold dropLineEnd
  split
  next rest reversed =>
    exact ⟨['\r', '\n'], by rw [← List.reverse_inj, reversed]; simp, by simp⟩
  next rest _ reversed =>
    exact ⟨['\n'], by rw [← List.reverse_inj, reversed]; simp, by simp⟩
  next => exact ⟨[], by simp, by simp⟩

end Galley.Text
