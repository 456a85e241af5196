import Galley.Proofs.Markdown.Paragraph

/-!
# Passages of marked texts

The lines of a block as one sequence. The margins in front of them and the breaks behind them hold no token, so
the sequence is as genuine as the lines.

* `Passage.Fit` — a genuine passage that knows where its lines begin;
* `fit_ofContent`, `occurrences_ofContent` — the passage of a block;
* `Passage.slice_eq`, `Passage.textFrom_eq` — parts of a passage;
* `derived_sliceWithSkipped` — a part together with what was skipped in it.
-/

namespace Galley.Markdown

open Galley.Source (Marking isPrivateUse isTokenChar Clear clear_cons clear_nil)

variable {m : Marking} {k : Nat} {cs : List Char} {passage : Passage}

/-- A genuine passage. What was skipped in it are margins, and they stand behind line breaks. -/
structure Passage.Fit (m : Marking) (passage : Passage) : Prop where
  /-- The text is genuine. -/
  genuine : Genuine m passage.chars.toList
  /-- Containers take only characters of margins. -/
  margin : ∀ entry ∈ passage.skipped, ∀ c ∈ entry.2, isMarginChar c = true
  /-- A margin follows a line break. -/
  broken : ∀ entry ∈ passage.skipped, entry.1 = 0 ∨
    ∃ c, passage.chars.toList[entry.1 - 1]? = some c ∧ isBreak c = true

/-! ## The passage of a block -/

theorem Unforged.append_of_not_mem {sentinel : Char} {a b : List Char} (fresh : '&' ∉ a)
    (right : Unforged sentinel b) : Unforged sentinel (a ++ b) := by
  induction a with
  | nil => exact right
  | cons c rest ih =>
    obtain ⟨other, fresh⟩ := not_or.mp (mt List.mem_cons.mpr fresh)
    exact ⟨fun same => absurd same.symm other, ih fresh⟩

theorem not_mem_of_all {p : Char → Bool} {c : Char} (all : ∀ d ∈ cs, p d = true) (other : p c = false) :
    c ∉ cs := fun member => by
  have kind := all c member
  rw [other] at kind
  cases kind

/-- The text of fit lines is genuine, and it has the tokens of the lines. -/
theorem genuine_lines {lines : List ContentLine} (fit : ∀ line ∈ lines, line.Fit m)
    (broken : ∀ line ∈ lines.dropLast, line.lineBreak ≠ []) :
    Genuine m (lines.flatMap ContentLine.whole) ∧
      ∀ k, m.occurrences k (lines.flatMap ContentLine.whole) = linesWeight m k lines := by
  induction lines with
  | nil => exact ⟨genuine_nil, fun _ => rfl⟩
  | cons line rest ih =>
    obtain ⟨first, others⟩ := List.forall_mem_cons.mp fit
    have later : ∀ line ∈ rest.dropLast, line.lineBreak ≠ [] := fun other member => by
      refine broken other ?_
      cases rest with
      | nil => cases member
      | cons next more =>
        rw [List.dropLast_cons_of_ne_nil (by simp)]
        exact List.mem_cons_of_mem _ member
    obtain ⟨genuine, weight⟩ := ih others later
    have margin : m.opening ∉ line.indentation :=
      opening_not_mem_of_all (fun _ => isTokenChar_of_isMarginChar) first.indentation
    have ends : m.opening ∉ line.lineBreak :=
      opening_not_mem_of_all (fun _ => isTokenChar_of_isBreak) first.lineBreak
    have tail : Genuine m (line.lineBreak ++ rest.flatMap ContentLine.whole) :=
      ⟨(Marking.tokened_of_not_mem ends).append genuine.tokened,
        genuine.unforged.append_of_not_mem (not_mem_of_all first.lineBreak (by decide))⟩
    have stops : ∀ c ∈ (line.lineBreak ++ rest.flatMap ContentLine.whole).head?,
        isReferenceChar c = false := by
      intro c member
      cases breaks : line.lineBreak with
      | nil =>
        cases rest with
        | nil =>
          rw [breaks] at member
          cases member
        | cons next more => exact absurd breaks (broken line (by simp))
      | cons d more =>
        rw [breaks] at member
        obtain rfl : d = c := Option.some.inj member
        have breaking := first.lineBreak d (by rw [breaks]; exact List.mem_cons_self)
        simp only [isBreak, Bool.or_eq_true, beq_iff_eq] at breaking
        rcases breaking with rfl | rfl <;> decide
    have whole : (line :: rest).flatMap ContentLine.whole =
        line.indentation ++ (line.text ++ (line.lineBreak ++ rest.flatMap ContentLine.whole)) := by
      simp [ContentLine.whole]
    rw [whole]
    refine ⟨⟨(Marking.tokened_of_not_mem margin).append (first.text.tokened.append tail.tokened), ?_⟩,
      fun k => ?_⟩
    · exact (first.text.unforged.append tail.unforged stops).append_of_not_mem
        (not_mem_of_all first.indentation (by decide))
    · rw [Marking.occurrences_append (Marking.tokened_of_not_mem margin),
        Marking.occurrences_append first.text.tokened,
        Marking.occurrences_append (Marking.tokened_of_not_mem ends),
        Marking.occurrences_of_not_mem margin, Marking.occurrences_of_not_mem ends, weight]
      simp [linesWeight]

/-- Where a line begins, a line break stands in front. -/
theorem skippedAt_spec {lines : List ContentLine} (front : List Char) (fit : ∀ line ∈ lines, line.Fit m)
    (broken : ∀ line ∈ lines.dropLast, line.lineBreak ≠ [])
    (begins : front = [] ∨ ∃ before c, front = before ++ [c] ∧ isBreak c = true) :
    ∀ entry ∈ Passage.skippedAt front.length lines, (∀ c ∈ entry.2, isMarginChar c = true) ∧
      (entry.1 = 0 ∨ ∃ c, (front ++ lines.flatMap ContentLine.whole)[entry.1 - 1]? = some c ∧
        isBreak c = true) := by
  induction lines generalizing front with
  | nil => exact fun _ absent => absurd absent List.not_mem_nil
  | cons line rest ih =>
    obtain ⟨first, others⟩ := List.forall_mem_cons.mp fit
    refine List.forall_mem_cons.mpr ⟨⟨first.skipped, ?_⟩, ?_⟩
    · rcases begins with rfl | ⟨before, c, rfl, breaking⟩
      · exact Or.inl rfl
      · exact Or.inr ⟨c, by simp, breaking⟩
    · cases rest with
      | nil => exact fun _ absent => absurd absent List.not_mem_nil
      | cons next more =>
        rw [List.dropLast_cons_of_ne_nil (by simp)] at broken
        obtain ⟨ends, later⟩ := List.forall_mem_cons.mp broken
        have last : ∃ before c, front ++ line.whole = before ++ [c] ∧ isBreak c = true := by
          refine ⟨front ++ line.indentation ++ line.text ++ line.lineBreak.dropLast,
            line.lineBreak.getLast ends, ?_, first.lineBreak _ (List.getLast_mem ends)⟩
          rw [List.append_assoc _ line.lineBreak.dropLast, List.dropLast_concat_getLast]
          simp [ContentLine.whole]
        have rest := ih (front ++ line.whole) others later (Or.inr last)
        simpa [List.append_assoc] using rest

theorem fit_ofContent {content : Content} (fit : content.Fit m) : Passage.Fit m (.ofContent content) := by
  have skipped := skippedAt_spec [] fit.lines fit.broken (Or.inl rfl)
  refine ⟨?_, fun entry member => ?_, fun entry member => ?_⟩
  · simpa [Passage.ofContent] using (genuine_lines fit.lines fit.broken).1
  · exact (skipped entry (List.mem_filter.mp member).1).1
  · simpa [Passage.ofContent] using (skipped entry (List.mem_filter.mp member).1).2

theorem occurrences_ofContent {content : Content} (fit : content.Fit m) :
    m.occurrences k (Passage.ofContent content).chars.toList = content.weight m k := by
  have weight := (genuine_lines fit.lines fit.broken).2 k
  simpa [Passage.ofContent, Content.weight, linesWeight] using weight

/-! ## Parts of a passage -/

theorem Passage.textFrom_eq (passage : Passage) (start : Nat) :
    passage.textFrom start = passage.chars.toList.drop start := by
  rw [Passage.textFrom, Array.toList_extract, List.extract_eq_take_drop, List.take_of_length_le]
  simp

theorem Passage.slice_eq (passage : Passage) (start stop : Nat) :
    passage.slice start stop = (passage.chars.toList.drop start).take (stop - start) := by
  simp [Passage.slice]

/-- The text between two places follows the text up to the first one. -/
theorem take_append_slice {start stop : Nat} (forward : start ≤ stop) (cs : List Char) :
    cs.take start ++ (cs.drop start).take (stop - start) = cs.take stop := by
  obtain ⟨more, rfl⟩ := Nat.exists_eq_add_of_le forward
  rw [Nat.add_sub_cancel_left, List.take_add]

theorem occurrences_slice_le {start stop : Nat} (forward : start ≤ stop) (cs : List Char) :
    m.occurrences k (cs.take start) + m.occurrences k ((cs.drop start).take (stop - start)) ≤
      m.occurrences k (cs.take stop) := by
  rw [← take_append_slice forward]
  exact m.occurrences_append_le _ _

theorem occurrences_take_le {start stop : Nat} (forward : start ≤ stop) (cs : List Char) :
    m.occurrences k (cs.take start) ≤ m.occurrences k (cs.take stop) := by
  have parts := occurrences_slice_le (m := m) (k := k) forward cs
  omega

/-- A part of a text that ends in front of a clear text has whole tokens. -/
theorem tokened_slice {start stop : Nat} (whole : m.Tokened cs) (clear : Clear (cs.drop stop)) :
    m.Tokened ((cs.drop start).take (stop - start)) := by
  by_cases forward : start ≤ stop
  · have split : cs.drop start = (cs.drop start).take (stop - start) ++ cs.drop stop := by
      conv => lhs; rw [← List.take_append_drop (stop - start) (cs.drop start)]
      rw [List.drop_drop, Nat.add_sub_cancel' forward]
    have right : m.Tokened (cs.drop start) := by
      rw [← List.take_append_drop start cs] at whole
      exact whole.right
    rw [split] at right
    exact right.left clear
  · rw [Nat.sub_eq_zero_of_le (by omega), List.take_zero]
    exact trivial

/-- Tokens at the start of a part stay there when margins are put back. `c` stands in front of the part. -/
theorem prefix_sliceWithSkipped (fit : passage.Fit m) (start : Nat) {place : Nat} {c : Char}
    {t rest : List Char} (inFront : passage.chars.toList[place]? = some c) (inToken : isTokenChar c = true)
    (here : rest <+: passage.chars.toList.drop (place + 1)) (all : ∀ d ∈ t, isTokenChar d = true)
    (begins : t <+: rest) : t <+: Passage.sliceWithSkipped.go passage start (place + 1) rest := by
  induction t generalizing place c rest with
  | nil => exact List.nil_prefix
  | cons d ds ih =>
    obtain ⟨tail, rfl⟩ := begins
    rw [List.cons_append] at here ⊢
    have next : passage.chars.toList[place + 1]? = some d := by
      obtain ⟨more, whole⟩ := here
      rw [← List.head?_drop, ← whole]
      rfl
    have after : ds ++ tail <+: passage.chars.toList.drop (place + 1 + 1) := by
      obtain ⟨more, whole⟩ := here
      rw [← List.drop_drop, ← whole]
      exact List.prefix_append _ _
    have unbroken : (passage.skipped.lookup (place + 1)).getD [] = [] := by
      cases found : passage.skipped.lookup (place + 1) with
      | none => rfl
      | some text =>
        obtain ⟨earlier, later, listed, -⟩ := List.lookup_eq_some_iff.mp found
        rcases fit.broken (place + 1, text) (by rw [listed]; simp) with zero | ⟨e, same, breaking⟩
        · exact absurd zero (Nat.succ_ne_zero place)
        · rw [Nat.add_sub_cancel, inFront] at same
          rw [Option.some.inj same, isTokenChar_of_isBreak breaking] at inToken
          cases inToken
    unfold Passage.sliceWithSkipped.go
    simp only [unbroken, ite_self, List.nil_append]
    refine List.cons_prefix_cons.mpr ⟨rfl, ih next (all d List.mem_cons_self) after
      (fun e member => all e (List.mem_cons_of_mem _ member)) (List.prefix_append _ _)⟩

/-- A part of a passage together with the margins in it is derived from the part. -/
theorem derived_sliceWithSkipped (fit : passage.Fit m) (start stop : Nat) :
    m.Derived (passage.sliceWithSkipped start stop) (passage.slice start stop) := by
  have go : ∀ (rest : List Char) (place : Nat), rest <+: passage.chars.toList.drop place →
      m.Derived (Passage.sliceWithSkipped.go passage start place rest) rest := by
    intro rest
    induction rest with
    | nil => exact fun _ _ => .done []
    | cons c rest ih =>
      intro place here
      have first : passage.chars.toList[place]? = some c := by
        obtain ⟨more, whole⟩ := here
        rw [← List.head?_drop, ← whole]
        rfl
      have after : rest <+: passage.chars.toList.drop (place + 1) := by
        obtain ⟨more, whole⟩ := here
        rw [← List.drop_drop, ← whole]
        exact List.prefix_append _ _
      have fresh : m.opening ∉ (if place == start then [] else (passage.skipped.lookup place).getD []) := by
        split
        · exact List.not_mem_nil
        · cases found : passage.skipped.lookup place with
          | none => exact List.not_mem_nil
          | some text =>
            obtain ⟨earlier, later, listed, -⟩ := List.lookup_eq_some_iff.mp found
            exact opening_not_mem_of_all (fun _ => isTokenChar_of_isMarginChar)
              (fit.margin (place, text) (by rw [listed]; simp))
      unfold Passage.sliceWithSkipped.go
      refine .insertAll fresh (.keep (fun opens j begins => ?_) (ih _ after))
      refine prefix_sliceWithSkipped fit start first ?_ after
        (fun _ => Marking.isTokenChar_of_mem_body) begins
      rw [opens]
      simp [isTokenChar, m.openingPrivate]
  refine go _ _ ?_
  rw [Passage.slice_eq]
  exact List.take_prefix _ _

end Galley.Markdown
