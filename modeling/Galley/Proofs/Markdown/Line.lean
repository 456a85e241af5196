import Galley.Markdown.Leaf
import Galley.Proofs.Markdown.Margin
import Galley.Proofs.Text.Runs

/-!
# Cutting a text into lines

The cuts that block readers make go through no token, because they are made at blanks, at line breaks and at
other characters that stand in none.

* `Genuine.takeWhile`, `Genuine.dropEndWhile` — a text up to a character of some kind;
* `skips_dropLineBreak?`, `skips_dropBlankLine?` — what ends a line;
* `splitLine_spec` — a line with its end;
* `Genuine.codeLine` — a line of code.
-/

namespace Galley.Markdown

open Galley.Source (Marking isPrivateUse isTokenChar Clear clear_cons clear_nil)

variable {m : Marking} {k : Nat} {p : Char → Bool} {a b cs rest : List Char}

/-! ## Kinds of characters -/

theorem isTokenChar_of_isBreak {c : Char} (isBreak : isBreak c = true) : isTokenChar c = false := by
  simp only [Markdown.isBreak, Bool.or_eq_true, beq_iff_eq] at isBreak
  rcases isBreak with rfl | rfl <;> decide

theorem isTokenChar_of_isSpace {c : Char} (isSpace : isSpace c = true) : isTokenChar c = false := by
  simp only [Markdown.isSpace, Bool.or_eq_true, beq_iff_eq] at isSpace
  rcases isSpace with ((rfl | rfl) | rfl) | rfl <;> decide

theorem isTokenChar_of_isMarginChar {c : Char} (isMargin : isMarginChar c = true) :
    isTokenChar c = false := by
  simp only [isMarginChar, Bool.or_eq_true, beq_iff_eq] at isMargin
  rcases isMargin with (rfl | rfl) | rfl <;> decide

/-- Characters that stand in no token hold no opening sentinel. -/
theorem opening_not_mem_of_all (none : ∀ c, p c = true → isTokenChar c = false)
    (all : ∀ c ∈ cs, p c = true) : m.opening ∉ cs := fun member =>
  Marking.opening_ne (none _ (all _ member)) rfl

/-! ## Cuts at a character of some kind -/

theorem clear_of_all (none : ∀ c, p c = true → isTokenChar c = false) (all : ∀ c ∈ cs, p c = true) :
    Clear cs := by
  cases cs with
  | nil => exact clear_nil
  | cons c rest => exact clear_cons (none c (all c List.mem_cons_self))

theorem clear_dropWhile (none : ∀ c, p c = false → isTokenChar c = false) (cs : List Char) :
    Clear (cs.dropWhile p) := fun c member => by
  have stops := List.head?_dropWhile_not p cs
  rw [member] at stops
  exact none c (by simpa using stops)

theorem dropEndWhile_spec (p : Char → Bool) (cs : List Char) :
    ∃ tail, cs = Text.dropEndWhile p cs ++ tail ∧ ∀ c ∈ tail, p c = true := by
  refine ⟨(cs.reverse.takeWhile p).reverse, ?_, fun c member => ?_⟩
  · rw [Text.dropEndWhile, ← List.reverse_append, List.takeWhile_append_dropWhile, List.reverse_reverse]
  · exact List.all_eq_true.mp List.all_takeWhile c (List.mem_reverse.mp member)

theorem Genuine.takeWhile (genuine : Genuine m cs)
    (none : ∀ c, p c = false → isTokenChar c = false) : Genuine m (cs.takeWhile p) := by
  rw [← List.takeWhile_append_dropWhile (p := p) (l := cs)] at genuine
  exact genuine.left (clear_dropWhile none cs)

theorem Genuine.dropEndWhile (genuine : Genuine m cs)
    (none : ∀ c, p c = true → isTokenChar c = false) : Genuine m (Text.dropEndWhile p cs) := by
  obtain ⟨tail, whole, all⟩ := dropEndWhile_spec p cs
  rw [whole] at genuine
  exact genuine.left (clear_of_all none all)

theorem Genuine.suffix (genuine : Genuine m cs) (suffix : rest <:+ cs) : Genuine m rest := by
  obtain ⟨used, rfl⟩ := suffix
  exact genuine.right

theorem occurrences_suffix (suffix : rest <:+ cs) : m.occurrences k rest ≤ m.occurrences k cs := by
  obtain ⟨used, rfl⟩ := suffix
  exact Marking.occurrences_right_le used rest

theorem occurrences_dropEndWhile (p : Char → Bool) (cs : List Char) :
    m.occurrences k (Text.dropEndWhile p cs) ≤ m.occurrences k cs := by
  obtain ⟨tail, whole, -⟩ := dropEndWhile_spec p cs
  conv => rhs; rw [whole]
  exact Marking.occurrences_left_le _ _

/-- What is left after a text at the start of another one. -/
theorem append_of_isPrefixOf? {front : List Char} (read : front.isPrefixOf? cs = some rest) :
    cs = front ++ rest := by
  induction front generalizing cs with
  | nil => exact Option.some.inj read
  | cons c front ih =>
    cases cs with
    | nil => cases read
    | cons d cs =>
      unfold List.isPrefixOf? at read
      split at read
      next same => rw [beq_iff_eq.mp same, ih read, List.cons_append]
      next => cases read

/-! ## Ends of lines -/

theorem skips_dropLineBreak? (ended : dropLineBreak? cs = some rest) : Skips isBreak cs rest := by
  unfold dropLineBreak? at ended
  split at ended
  · rw [← Option.some.inj ended]
    exact .refl _
  · rw [← Option.some.inj ended]
    exact ((Skips.refl _).cons rfl).cons rfl
  · rw [← Option.some.inj ended]
    exact (Skips.refl _).cons rfl
  · rw [← Option.some.inj ended]
    exact (Skips.refl _).cons rfl
  · cases ended

/-- A line break at the start of a text takes its first character. -/
theorem suffix_dropLineBreak? {c : Char} (ended : dropLineBreak? (c :: cs) = some rest) : rest <:+ cs := by
  unfold dropLineBreak? at ended
  split at ended
  next whole => cases whole
  next tail whole =>
    rw [← Option.some.inj ended, (List.cons.inj whole).2]
    exact List.suffix_cons _ _
  next tail _ whole =>
    obtain ⟨-, rfl⟩ := List.cons.inj whole
    obtain rfl := Option.some.inj ended
    exact List.suffix_refl _
  next tail whole =>
    obtain ⟨-, rfl⟩ := List.cons.inj whole
    obtain rfl := Option.some.inj ended
    exact List.suffix_refl _
  next => cases ended

/-- After the text of a line there is always a line break, the end of the text among them. -/
theorem dropLineBreak?_dropWhile (cs : List Char) :
    ∃ next, dropLineBreak? (cs.dropWhile fun c => !isBreak c) = some next ∧
      Skips isBreak (cs.dropWhile fun c => !isBreak c) next := by
  have stops := List.head?_dropWhile_not (fun c => !isBreak c) cs
  suffices found : ∃ next, dropLineBreak? (cs.dropWhile fun c => !isBreak c) = some next by
    obtain ⟨next, ended⟩ := found
    exact ⟨next, ended, skips_dropLineBreak? ended⟩
  cases tail : cs.dropWhile fun c => !isBreak c with
  | nil => exact ⟨[], rfl⟩
  | cons c rest =>
    rw [tail] at stops
    have isBreak : c = '\n' ∨ c = '\r' :=
      Decidable.or_iff_not_imp_left.mpr (by simpa [Markdown.isBreak] using stops)
    rcases isBreak with rfl | rfl
    · exact ⟨rest, by unfold dropLineBreak?; rfl⟩
    · cases rest with
      | nil => exact ⟨[], rfl⟩
      | cons d more =>
        by_cases feed : d = '\n'
        · exact ⟨more, by rw [feed]; rfl⟩
        · exact ⟨d :: more, by unfold dropLineBreak?; simp [feed]⟩

theorem skips_dropBlankLine? (ended : dropBlankLine? cs = some rest) :
    Skips isSpaceOrBreak cs rest := by
  unfold dropBlankLine? at ended
  exact ((Skips.dropWhile cs).mono fun c isSpace => by simp [isSpaceOrBreak, isSpace]).trans
    ((skips_dropLineBreak? ended).mono fun c isBreak => by
      simpa [isSpaceOrBreak, Bool.or_assoc] using Or.inr (by simpa [Markdown.isBreak] using isBreak))

/-- A line ends with its line feed, or the text ends with it. -/
theorem splitLine_spec (cs : List Char) :
    (splitLine cs).1 ++ (splitLine cs).2 = cs ∧
      ((splitLine cs).2 = [] ∨ ∃ text, (splitLine cs).1 = text ++ ['\n']) := by
  induction cs with
  | nil => exact ⟨rfl, Or.inl rfl⟩
  | cons c rest ih =>
    unfold splitLine
    split
    next feed => exact ⟨rfl, Or.inr ⟨[], by rw [beq_iff_eq.mp feed]; rfl⟩⟩
    next =>
      refine ⟨by simp [ih.1], ih.2.imp id ?_⟩
      rintro ⟨text, whole⟩
      exact ⟨c :: text, by simp [whole]⟩

theorem Genuine.splitLine (genuine : Genuine m cs) : Genuine m (splitLine cs).1 := by
  obtain ⟨whole, last⟩ := splitLine_spec cs
  rw [← whole] at genuine
  rcases last with nothing | ⟨text, ends⟩
  · exact genuine.left (nothing ▸ clear_nil)
  · rw [ends] at genuine ⊢
    rw [List.append_assoc] at genuine
    exact ⟨genuine.tokened.left_of_last (by decide), by
      rw [← List.append_assoc] at genuine; exact genuine.unforged.left⟩

/-! ## Lines of code -/

theorem codeLine_spec (pending : Nat) (line : List Char) :
    codeLine pending line = List.replicate pending ' ' ++ line ∨
      ∃ front last, line = front ++ '\r' :: [last] ∧
        codeLine pending line = List.replicate pending ' ' ++ (front ++ [last]) := by
  unfold codeLine
  split
  next whole last rest reversed =>
    refine Or.inr ⟨rest.reverse, last, ?_, by simp⟩
    rw [← List.reverse_reverse line, reversed]
    simp
  next => exact Or.inl rfl

theorem opening_not_mem_replicate {c : Char} (other : isTokenChar c = false) (n : Nat) :
    m.opening ∉ List.replicate n c := fun member =>
  Marking.opening_ne other (List.eq_of_mem_replicate member).symm

theorem tokened_codeLine (pending : Nat) (tokened : m.Tokened cs) : m.Tokened (codeLine pending cs) := by
  have blanks := opening_not_mem_replicate (m := m) (show isTokenChar ' ' = false by decide) pending
  rcases codeLine_spec pending cs with same | ⟨front, last, rfl, same⟩
  · rw [same]
    exact (Marking.tokened_of_not_mem blanks).append tokened
  · rw [same]
    exact (Marking.tokened_of_not_mem blanks).append
      ((tokened.left (clear_cons (by decide))).append tokened.right.2)

theorem occurrences_codeLine (pending : Nat) (tokened : m.Tokened cs) :
    m.occurrences k (codeLine pending cs) ≤ m.occurrences k cs := by
  have blanks := opening_not_mem_replicate (m := m) (show isTokenChar ' ' = false by decide) pending
  rcases codeLine_spec pending cs with same | ⟨front, last, rfl, same⟩
  · rw [same, Marking.occurrences_append (Marking.tokened_of_not_mem blanks),
      Marking.occurrences_of_not_mem blanks]
    omega
  · have whole := m.occurrences_append_le (k := k) front ('\r' :: [last])
    have short := m.occurrences_right_le (k := k) ['\r'] [last]
    rw [same, Marking.occurrences_append (Marking.tokened_of_not_mem blanks),
      Marking.occurrences_of_not_mem blanks,
      Marking.occurrences_append (tokened.left (clear_cons (by decide)))]
    simp only [List.singleton_append] at short
    omega

end Galley.Markdown
