import Galley.Heading.Contents
import Galley.Proofs.Source.Fences
import Galley.Proofs.Text.Runs
import Galley.Proofs.Text.Trimming

/-!
# Headings and fenced blocks

The headings of a document are collected line by line, without the ends of the lines and with a fence of their own for the
code. The fenced blocks are found by byte offsets, in lines with their ends. Both agree on what is code.

* `ofLine?_dropLineEnd`, `closedBy_dropLineEnd` — the end of a line says nothing about its fence;
* `IsHeading`, `EntryOf` — heading lines, and `entryOf_iff`: the entry that is read from one;
* `contentsFrom_some`, `contentsFrom_eq` — the collector goes on behind a block as the scanner does;
* `contents_are_headings_outside_fences` — the entries are those of the heading lines outside of the blocks.
-/

namespace Galley

open Galley.Source

/-! ## Ends of lines -/

namespace Source.Fence

theorem ofLine?_dropLineEnd (line : List Char) : ofLine? (Text.dropLineEnd line) = ofLine? line := by
  obtain ⟨back, whole, ends⟩ := Text.dropLineEnd_append line
  have all : ∀ c ∈ back, isLineEnd c = true := by
    intro c member
    rcases ends c member with rfl | rfl <;> rfl
  have same := Text.dropEndWhile_append (Text.dropLineEnd line) all
  rw [← whole] at same
  unfold ofLine?
  rw [same]

theorem closedBy_dropLineEnd (fence : Fence) (line : List Char) :
    fence.closedBy (Text.dropLineEnd line) = fence.closedBy line := by
  obtain ⟨back, whole, ends⟩ := Text.dropLineEnd_append line
  have blank : ∀ c ∈ back, Text.isBlank c = true := by
    intro c member
    rcases ends c member with rfl | rfl <;> rfl
  have same := Text.trim_append (Text.dropLineEnd line) blank
  rw [← whole] at same
  unfold closedBy
  rw [ofLine?_dropLineEnd, same]

end Source.Fence

namespace Heading

variable {size pos level : Nat} {lines : List PlacedLine} {spans : List Span} {text : List Char} {entry : ContentsEntry}

/-! ## Heading lines -/

/-- A heading line: one to six `#`, blanks, and a text. -/
structure IsHeading (line : List Char) (level : Nat) (text : List Char) : Prop where
  atLeast : 1 ≤ level
  atMost : level ≤ 6
  /-- What stands in the line. -/
  written : ∃ blanks, blanks ≠ [] ∧ (∀ c ∈ blanks, Text.isBlank c = true) ∧
    line = List.replicate level '#' ++ (blanks ++ text)

/-- The entry of a heading line whose text is not blank: its level, its text without blanks at the ends, and the anchor of
    that text. -/
structure EntryOf (line : List Char) (entry : ContentsEntry) : Prop where
  heading : ∃ text, IsHeading line entry.level text ∧ Text.isBlankText text = false ∧
    entry.text = .ofList (Text.trim text)
  anchor : entry.anchor = anchorOf entry.text

/-- The signs that a line begins with, and what stands behind them. -/
theorem signs_and_rest (line : List Char) :
    List.replicate (line.takeWhile (· == '#')).length '#' ++ line.drop (line.takeWhile (· == '#')).length = line := by
  have signs : line.takeWhile (· == '#') = List.replicate (line.takeWhile (· == '#')).length '#' :=
    List.eq_replicate_iff.mpr ⟨rfl, fun c member => by simpa using List.mem_takeWhile_imp member⟩
  rw [← signs, Text.drop_takeWhile, List.takeWhile_append_dropWhile]

theorem length_signs (level : Nat) {c : Char} (other : c ≠ '#') (rest : List Char) :
    ((List.replicate level '#' ++ c :: rest).takeWhile (· == '#')).length = level := by
  rw [Text.takeWhile_exact (by simp) (by simpa using other), List.length_replicate]

/-- What is read from a line is the entry of a heading. -/
theorem entryOf_iff {line : List Char} : ContentsEntry.ofLine? line = some entry ↔ EntryOf line entry := by
  constructor
  · intro read
    unfold ContentsEntry.ofLine? at read
    simp only at read
    split at read
    next c rest behind =>
      split at read
      next shape =>
        split at read
        next => cases read
        next filled =>
          obtain rfl := Option.some.inj read
          simp only [Bool.and_eq_true, decide_eq_true_eq] at shape
          have whole := signs_and_rest line
          rw [behind] at whole
          refine ⟨⟨rest, ⟨shape.1.1, shape.1.2, [c], by simp, by simpa using shape.2, whole.symm⟩, ?_, rfl⟩, rfl⟩
          rw [← Bool.not_eq_true, ← Text.trim_eq_nil_iff]
          simpa using filled
      next => cases read
    next => cases read
  · rintro ⟨⟨text, ⟨atLeast, atMost, blanks, some, blank, rfl⟩, filled, same⟩, anchor⟩
    -- The first blank ends the signs, so there are as many of them as the level says.
    obtain ⟨b, others, rfl⟩ := List.exists_cons_of_ne_nil some
    obtain ⟨isBlank, othersBlank⟩ := List.forall_mem_cons.mp blank
    have noSign : b ≠ '#' := by
      rintro rfl
      cases isBlank
    have left : ¬ (Text.trim text).isEmpty = true := by
      rw [List.isEmpty_iff, Text.trim_eq_nil_iff, filled]
      exact Bool.false_ne_true
    unfold ContentsEntry.ofLine?
    simp only [List.cons_append, length_signs _ noSign]
    rw [List.drop_left' List.length_replicate]
    simp only [atLeast, atMost, isBlank, decide_true, Bool.and_self, ↓reduceIte, Text.trim_append_left othersBlank,
      if_neg left, ← same, ← anchor]

/-- An entry is one of the six levels, and its text is not empty and has no blanks at its ends. -/
theorem EntryOf.wellFormed {line : List Char} (entryOf : EntryOf line entry) :
    1 ≤ entry.level ∧ entry.level ≤ 6 ∧ entry.text ≠ "" ∧ Text.trim entry.text.toList = entry.text.toList := by
  obtain ⟨⟨text, heading, filled, same⟩, -⟩ := entryOf
  refine ⟨heading.atLeast, heading.atMost, ?_, ?_⟩
  · rw [same, ← String.toList_inj.ne, String.toList_ofList]
    intro nothing
    rw [String.toList_empty, Text.trim_eq_nil_iff, filled] at nothing
    cases nothing
  · rw [same, String.toList_ofList, Text.trim_trim]

/-! ## Two walks over the lines -/

/-- The lines of a text without their ends. -/
theorem map_placedLines (source : String) :
    ((placedLines source).map fun line => Text.dropLineEnd line.chars) = Text.lines source.toList := by
  unfold placedLines Text.lines
  -- Where the lines stand is of no matter, so any place may be the first one.
  generalize 0 = offset
  induction Text.linesWithEnds source.toList generalizing offset with
  | nil => rfl
  | cons line rest ih => rw [placedLines.go, List.map_cons, List.map_cons, ih]

/-- With an open fence the collector goes on to the line that closes it. -/
theorem contentsFrom_some (fence : Fence) :
    contentsFrom (some fence) (lines.map fun line => Text.dropLineEnd line.chars) =
      contentsFrom none ((linesBehind fence lines).map fun line => Text.dropLineEnd line.chars) := by
  induction lines with
  | nil => rfl
  | cons line rest ih =>
    rw [List.map_cons, contentsFrom, Fence.closedBy_dropLineEnd]
    cases closes : fence.closedBy line.chars with
    | true => rw [(blockStop_cons_of_closes 0 rest closes).2, if_pos rfl]
    | false => rw [(blockStop_cons_of_stays 0 rest closes).2, if_neg Bool.false_ne_true, ih]

/-- The entries of some lines are those of the lines outside of the blocks. -/
theorem contentsFrom_eq (found : FencesFrom size lines spans) (lined : LinesFrom size pos lines) :
    contentsFrom none (lines.map fun line => Text.dropLineEnd line.chars) =
      (linesOutside spans lines).filterMap fun line => ContentsEntry.ofLine? (Text.dropLineEnd line.chars) := by
  induction found generalizing pos with
  | done => rfl
  | @text line rest spans plain more ih =>
    obtain ⟨rfl, forward, later⟩ := lined.uncons
    -- All blocks begin behind the line.
    have outside : line.IsOutside spans := fun span member => .inr ((more.fencing later).2 span member)
    rw [List.map_cons, contentsFrom, Fence.ofLine?_dropLineEnd, plain, linesOutside,
      List.filter_cons_of_pos (by simpa using outside), List.filterMap_cons]
    simp only [ih later]
    cases ContentsEntry.ofLine? (Text.dropLineEnd line.chars) <;> rfl
  | @block opening rest fence spans opens more ih =>
    -- Of these lines the block leaves those behind it, and with those the collector goes on.
    obtain ⟨-, -, later⟩ := lined.uncons
    rw [List.map_cons, contentsFrom, Fence.ofLine?_dropLineEnd, opens, linesOutside_cons, lined.filter_apart,
      ← ih (later.behind fence).1]
    exact contentsFrom_some fence

/-! ## The entries of a document -/

/-- The entries of a document are those of the heading lines outside of its fenced blocks, in their order. -/
theorem contents_are_headings_outside_fences (source : String) :
    contents source = (linesOutside (fencedZones source) (placedLines source)).filterMap
        (fun line => ContentsEntry.ofLine? (Text.dropLineEnd line.chars)) ∧
      (∀ line entry, ContentsEntry.ofLine? line = some entry ↔ EntryOf line entry) ∧
      ∀ entry ∈ contents source,
        1 ≤ entry.level ∧ entry.level ≤ 6 ∧ entry.text ≠ "" ∧ Text.trim entry.text.toList = entry.text.toList := by
  have found : FencesFrom source.utf8ByteSize (placedLines source) (fencedZones source) := fencesFrom_fencedZonesFrom _ _
  have walk := contentsFrom_eq found (linesFrom_placedLines source)
  rw [map_placedLines] at walk
  refine ⟨walk, fun line entry => entryOf_iff, fun entry member => ?_⟩
  rw [contents, walk, List.mem_filterMap] at member
  obtain ⟨line, -, read⟩ := member
  exact (entryOf_iff.mp read).wellFormed

/-- A heading in a fenced block gives no entry, and one behind the block does, whatever ends the lines. -/
theorem contents_behind_fence :
    let source := "~~~\r\n# In\n~~~~\r\n## Out \r\n"
    contents source = [⟨2, "Out", "out"⟩] ∧ EntryOf "## Out ".toList ⟨2, "Out", "out"⟩ := by
  intro source
  have read : contents source = [⟨2, "Out", "out"⟩] := by decide
  exact ⟨read, ((contents_are_headings_outside_fences source).2.1 _ _).mp (by decide)⟩

end Heading
end Galley
