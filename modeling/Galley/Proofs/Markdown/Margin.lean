import Galley.Markdown.Outline
import Galley.Proofs.Markdown.Reference

/-!
# What margins take

Containers and indentation take blanks and quotation marks from a line and leave a part of it at its end.

* `Skips` — a text after some characters of one kind;
* `Margin.skips_indent`, `Margin.skips_skipBlanks` — what blanks take;
* `skips_continued` — what open containers take from a line.
-/

namespace Galley.Markdown

open Galley.Source (Marking isPrivateUse isTokenChar Clear clear_cons clear_nil)

/-- A text is another one after some characters of a kind. -/
def Skips (p : Char → Bool) (cs rest : List Char) : Prop :=
  ∃ used, cs = used ++ rest ∧ ∀ c ∈ used, p c = true

namespace Skips

variable {p q : Char → Bool} {cs rest tail : List Char} {c : Char}

theorem refl (cs : List Char) : Skips p cs cs := ⟨[], rfl, fun _ member => absurd member List.not_mem_nil⟩

theorem cons (kind : p c = true) (skips : Skips p cs rest) : Skips p (c :: cs) rest := by
  obtain ⟨used, rfl, all⟩ := skips
  exact ⟨c :: used, rfl, List.forall_mem_cons.mpr ⟨kind, all⟩⟩

theorem trans (first : Skips p cs rest) (second : Skips p rest tail) : Skips p cs tail := by
  obtain ⟨used, rfl, all⟩ := first
  obtain ⟨used', rfl, all'⟩ := second
  refine ⟨used ++ used', (List.append_assoc ..).symm, fun c member => ?_⟩
  exact (List.mem_append.mp member).elim (all c) (all' c)

theorem mono (skips : Skips p cs rest) (weaker : ∀ c, p c = true → q c = true) : Skips q cs rest := by
  obtain ⟨used, whole, all⟩ := skips
  exact ⟨used, whole, fun c member => weaker c (all c member)⟩

theorem dropWhile (cs : List Char) : Skips p cs (cs.dropWhile p) :=
  ⟨cs.takeWhile p, List.takeWhile_append_dropWhile.symm, List.all_eq_true.mp List.all_takeWhile⟩

theorem length_le (skips : Skips p cs rest) : rest.length ≤ cs.length := by
  obtain ⟨used, rfl, -⟩ := skips
  simp

theorem suffix (skips : Skips p cs rest) : rest <:+ cs := by
  obtain ⟨used, rfl, -⟩ := skips
  exact List.suffix_append _ _

end Skips

/-- Whether a character can be taken by a margin. -/
def isMarginChar (c : Char) : Bool := c == ' ' || c == '\t' || c == '>'

namespace Margin

theorem skips_indentFrom (n : Nat) (before : Char) (column pending : Nat) (cs : List Char) :
    Skips isMarginChar cs (indentFrom n before column pending cs).2.rest := by
  fun_induction indentFrom n before column pending cs with
  | case1 => exact .refl _
  | case2 => exact .refl _
  | case3 _ _ _ _ _ rest isBlank ih => exact ih.cons (by simp [isMarginChar, isBlank])
  | case4 _ _ _ _ _ rest _ isTab width ih => exact ih.cons (by simp [isMarginChar, isTab])
  | case5 => exact .refl _

theorem skips_indent (n : Nat) (margin : Margin) :
    Skips isMarginChar margin.rest (margin.indent n).2.rest :=
  skips_indentFrom _ _ _ _ _

theorem skips_skipBlanks (margin : Margin) : Skips isMarginChar margin.rest margin.skipBlanks.rest := by
  unfold skipBlanks
  fun_induction skipBlanks.go margin.before margin.rest with
  | case1 => exact .refl _
  | case2 _ c rest blank ih =>
    exact ih.cons (by simp [isMarginChar, blank])
  | case3 _ c rest other =>
    exact .refl _

theorem skips_quoteMark? {margin inner : Margin} (marked : margin.quoteMark? = some inner) :
    Skips isMarginChar margin.rest inner.rest := by
  unfold quoteMark? at marked
  split at marked
  next rest whole =>
    rw [← Option.some.inj marked, whole]
    exact (skips_indent 1 (margin.advance '>' rest)).cons rfl
  next => cases marked

theorem skips_indentOrEnd? {n : Nat} {margin inner : Margin}
    (indented : margin.indentOrEnd? n = some inner) : Skips isMarginChar margin.rest inner.rest := by
  unfold indentOrEnd? at indented
  simp only at indented
  split at indented
  next =>
    rw [← Option.some.inj indented]
    exact skips_indent n margin
  next => cases indented

end Margin

theorem Container.skips_continue? {container : Container} {margin inner : Margin}
    (goesOn : container.continue? margin = some inner) : Skips isMarginChar margin.rest inner.rest := by
  cases container with
  | quote => exact (margin.skips_indent 3).trans (Margin.skips_quoteMark? goesOn)
  | list mark isTight =>
    obtain rfl : margin = inner := Option.some.inj goesOn
    exact .refl _
  | item indent => exact Margin.skips_indentOrEnd? goesOn
  | footnote label => exact Margin.skips_indentOrEnd? goesOn

/-- Open containers take only blanks and quotation marks from a line. -/
theorem skips_continued (containers : List Container) (margin : Margin) :
    Skips isMarginChar margin.rest (continued containers margin).2.rest := by
  fun_induction continued containers margin with
  | case1 => exact .refl _
  | case2 container inner margin next goesOn count last rest ih =>
    rw [rest] at ih
    exact (Container.skips_continue? goesOn).trans ih
  | case3 => exact .refl _

theorem skips_inside? {containers : List Container} {line rest : List Char}
    (inside : inside? containers line = some rest) : Skips isMarginChar line rest := by
  unfold inside? at inside
  simp only at inside
  split at inside
  next =>
    rw [← Option.some.inj inside]
    exact skips_continued containers (.ofLine line)
  next => cases inside

end Galley.Markdown
