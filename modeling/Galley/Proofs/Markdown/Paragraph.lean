import Galley.Proofs.Markdown.Leaf

/-!
# Tables, paragraphs and headings

The texts of these blocks are parts of lines, up to a character that stands in no token.

* `line_spec` — the text of a line and what follows its end;
* `table?_spec` — tables;
* `paragraph_read` — paragraphs and underlined headings;
* `heading_read` — headings with number signs.
-/

namespace Galley.Markdown

open Galley.Source (Marking isPrivateUse isTokenChar Clear clear_cons clear_nil)

variable {m : Marking} {k : Nat} {cs rest : List Char}

/-! ## Lines -/

/-- What follows the text of a line: its end, and the text from the next line on. -/
structure LineEnd (cs tail next : List Char) : Prop where
  /-- The line break that is taken is the start of the tail. -/
  ended : dropLineBreak? tail = some next
  /-- The tail follows the text of the line. -/
  whole : cs = (cs.takeWhile fun c => !isBreak c) ++ tail
  /-- A line that is followed by something has an end. -/
  broken : next ≠ [] → tail.length ≠ next.length

theorem lineEnd (cs : List Char) :
    ∃ next, LineEnd cs (cs.drop (cs.takeWhile fun c => !isBreak c).length) next := by
  rw [Text.drop_takeWhile]
  obtain ⟨next, ended, -⟩ := dropLineBreak?_dropWhile cs
  refine ⟨next, ended, List.takeWhile_append_dropWhile.symm, fun some same => ?_⟩
  cases tail : cs.dropWhile fun c => !isBreak c with
  | nil =>
    rw [tail] at ended
    exact some (Option.some.inj ended).symm
  | cons c more =>
    rw [tail] at ended same
    have shorter := (suffix_dropLineBreak? ended).length_le
    simp only [List.length_cons] at same
    omega

namespace LineEnd

variable {tail next : List Char}

theorem suffix_tail (line : LineEnd cs tail next) : tail <:+ cs := by
  rw [line.whole]
  exact List.suffix_append _ _

theorem suffix (line : LineEnd cs tail next) : next <:+ cs :=
  (skips_dropLineBreak? line.ended).suffix.trans line.suffix_tail

/-- The text of a line and what follows it hold no token twice. -/
theorem occurrences_le (line : LineEnd cs tail next) :
    m.occurrences k (cs.takeWhile fun c => !isBreak c) + m.occurrences k next ≤ m.occurrences k cs := by
  have parts := m.occurrences_append_le (k := k) (cs.takeWhile fun c => !isBreak c) tail
  rw [← line.whole] at parts
  have less := occurrences_suffix (m := m) (k := k) (skips_dropLineBreak? line.ended).suffix
  omega

/-- The end of the line is made of line breaks. -/
theorem isBreak_of_mem (line : LineEnd cs tail next) :
    ∀ c ∈ tail.take (tail.length - next.length), isBreak c = true := by
  obtain ⟨used, rfl, all⟩ := skips_dropLineBreak? line.ended
  simpa using all

end LineEnd

theorem Genuine.line (genuine : Genuine m cs) : Genuine m (cs.takeWhile fun c => !isBreak c) :=
  genuine.takeWhile fun _ breaking => isTokenChar_of_isBreak (by simpa using breaking)

/-! ## Tables -/

theorem cellText_spec (escaped : Bool) (cs : List Char) :
    (cellText escaped cs).1 ++ (cellText escaped cs).2 = cs ∧ Clear (cellText escaped cs).2 := by
  induction cs generalizing escaped with
  | nil => exact ⟨rfl, clear_nil⟩
  | cons c cs ih =>
    unfold cellText
    split
    next bar =>
      simp only [Bool.and_eq_true, beq_iff_eq] at bar
      exact ⟨rfl, clear_cons (by rw [bar.1]; decide)⟩
    next =>
      obtain ⟨whole, clear⟩ := ih (c == '\\' && !escaped)
      exact ⟨by simp [whole], clear⟩

/-- The texts of the cells of a row are parts of the row. -/
theorem cellTexts_spec (fuel : Nat) (genuine : Genuine m cs) :
    (∀ text ∈ cellTexts fuel cs, Genuine m text) ∧
      ∀ k, ((cellTexts fuel cs).map (m.occurrences k)).sum ≤ m.occurrences k cs := by
  induction fuel generalizing cs with
  | zero => exact ⟨fun _ absent => absurd absent List.not_mem_nil, fun _ => Nat.zero_le _⟩
  | succ fuel ih =>
    -- A bar at the start is no part of the cell, and blanks after it are not either.
    obtain ⟨body, suffix, same⟩ : ∃ body, body <:+ cs ∧ cellTexts (fuel + 1) cs =
        if body.isEmpty then []
        else Text.dropEndWhile isSpace (cellText false body).1 :: cellTexts fuel (cellText false body).2 := by
      refine ⟨_, ?_, rfl⟩
      split
      · exact (List.dropWhile_suffix _).trans (List.suffix_cons _ _)
      · exact List.dropWhile_suffix _
    rw [same]
    split
    · exact ⟨fun _ absent => absurd absent List.not_mem_nil, fun _ => Nat.zero_le _⟩
    · obtain ⟨whole, clear⟩ := cellText_spec false body
      have inside := genuine.suffix suffix
      rw [← whole] at inside
      obtain ⟨others, most⟩ := ih inside.right
      refine ⟨List.forall_mem_cons.mpr ⟨(inside.left clear).dropEndWhile fun c => isTokenChar_of_isSpace,
        others⟩, fun k => ?_⟩
      have text := occurrences_dropEndWhile (m := m) (k := k) isSpace (cellText false body).1
      have parts := m.occurrences_append_le (k := k) (cellText false body).1 (cellText false body).2
      rw [whole] at parts
      have less := occurrences_suffix (m := m) (k := k) suffix
      have more := most k
      simp only [List.map_cons, List.sum_cons]
      omega

/-- The cells of a row hold the tokens of their texts. -/
theorem rowCells_spec (columns : Nat) {texts : List (List Char)} (genuine : ∀ text ∈ texts, Genuine m text) :
    (∀ cell ∈ rowCells columns texts, cell.Fit m) ∧
      ((rowCells columns texts).map (Content.weight m k)).sum ≤ (texts.map (m.occurrences k)).sum := by
  unfold rowCells
  have all : ∀ text ∈ texts ++ List.replicate (columns - texts.length) [], Genuine m text := by
    intro text member
    rcases List.mem_append.mp member with given | padding
    · exact genuine text given
    · rw [List.eq_of_mem_replicate padding]
      exact genuine_nil
  have total : ((texts ++ List.replicate (columns - texts.length) []).map (m.occurrences k)).sum =
      (texts.map (m.occurrences k)).sum := by
    simp [Marking.occurrences]
  rw [← total]
  generalize texts ++ List.replicate (columns - texts.length) [] = padded at all
  refine ⟨fun cell member => ?_, ?_⟩
  · obtain ⟨text, kept, rfl⟩ := List.mem_map.mp member
    exact Content.fit_ofText (all text (List.mem_of_mem_take kept))
  · rw [List.map_map]
    have weights : Content.weight m k ∘ Content.ofText ' ' true = m.occurrences k :=
      funext fun text => Content.weight_ofText ' ' true text
    have parts : (padded.map (m.occurrences k)).sum =
        ((padded.take columns).map (m.occurrences k)).sum + ((padded.drop columns).map (m.occurrences k)).sum := by
      rw [← List.sum_append, ← List.map_append, List.take_append_drop]
    rw [weights, parts]
    exact Nat.le_add_right _ _

/-- How often a token stands in the cells of some rows. -/
def rowsWeight (m : Marking) (k : Nat) (rows : List (List Content)) : Nat :=
  (rows.map fun row => (row.map (Content.weight m k)).sum).sum

/-- Rows that were read from the start of a text. -/
structure RowsRead (m : Marking) (cs : List Char) (rows : List (List Content)) (rest : List Char) : Prop where
  /-- The cells have whole tokens. -/
  fit : ∀ row ∈ rows, ∀ cell ∈ row, cell.Fit m
  /-- What is in the rows does not follow them. -/
  weight : ∀ k, rowsWeight m k rows + m.occurrences k rest ≤ m.occurrences k cs
  /-- The rest is the end of the text. -/
  suffix : rest <:+ cs

theorem RowsRead.none (cs : List Char) : RowsRead m cs [] cs :=
  ⟨fun _ absent => absurd absent List.not_mem_nil, fun _ => Nat.le_of_eq (Nat.zero_add _), List.suffix_refl _⟩

theorem tableRows_spec (containers : List Container) (columns fuel : Nat) (genuine : Genuine m cs) :
    RowsRead m cs (tableRows containers columns fuel cs).1 (tableRows containers columns fuel cs).2 := by
  induction fuel generalizing cs with
  | zero => exact .none cs
  | succ fuel ih =>
    unfold tableRows
    simp only
    have margin := suffix_continued containers cs
    generalize continued containers (.ofLine cs) = continues at margin
    have body := continues.2.skips_skipBlanks.suffix.trans margin
    generalize continues.2.skipBlanks.rest = row at body
    obtain ⟨next, line⟩ := lineEnd row
    have inside := genuine.suffix body
    split
    · exact .none cs
    · rw [line.ended, Option.getD_some]
      have toNext := line.suffix.trans body
      have rows := ih (genuine.suffix toNext)
      obtain ⟨texts, most⟩ := cellTexts_spec ((row.takeWhile fun c => !isBreak c).length + 1) inside.line
      refine ⟨List.forall_mem_cons.mpr ⟨(rowCells_spec (k := 0) columns texts).1, rows.fit⟩, fun k => ?_,
        rows.suffix.trans toNext⟩
      have cells := (rowCells_spec (k := k) columns texts).2
      have total := most k
      have parts := line.occurrences_le (m := m) (k := k)
      have less := occurrences_suffix (m := m) (k := k) body
      have others := rows.weight k
      simp only [rowsWeight, List.map_cons, List.sum_cons] at others ⊢
      omega

theorem suffix_delimiterRow? {columns : List Alignment} (read : delimiterRow? cs = some (columns, rest)) :
    rest <:+ cs := by
  unfold delimiterRow? at read
  simp only at read
  have inner := (Margin.ofLine cs).skips_indent 4
  generalize (Margin.ofLine cs).indent 4 = indented at read inner
  split at read
  · cases read
  · split at read
    · simp only [Option.bind_eq_bind, Option.bind_eq_some_iff] at read
      obtain ⟨_, -, after, ended, same⟩ := read
      obtain ⟨-, rfl⟩ := Prod.mk.inj (Option.some.inj same)
      exact ((skips_dropLineBreak? ended).suffix.trans (List.drop_suffix _ _)).trans inner.suffix
    · cases read

/-- A table takes its lines from the start of the text. -/
theorem table?_spec {containers : List Container} {block : Block} (genuine : Genuine m cs)
    (read : table? containers cs = some (block, rest)) : Block.Read m cs block rest := by
  unfold table? at read
  simp only at read
  obtain ⟨next, line⟩ := lineEnd cs
  split at read
  · cases read
  · simp only [Option.bind_eq_bind, Option.bind_eq_some_iff] at read
    obtain ⟨after, ended, inner, goesOn, ⟨columns, start⟩, delimited, read⟩ := read
    obtain rfl := Option.some.inj (line.ended.symm.trans ended)
    simp only at read
    split at read
    · obtain ⟨rfl, rfl⟩ := Prod.mk.inj (Option.some.inj read)
      have toRows := ((suffix_delimiterRow? delimited).trans (skips_inside? goesOn).suffix)
      have rows := tableRows_spec containers columns.length (start.length + 1)
        (genuine.suffix (toRows.trans line.suffix))
      obtain ⟨texts, most⟩ := cellTexts_spec ((cs.takeWhile fun c => !isBreak c).length + 1) genuine.line
      refine ⟨⟨(rowCells_spec (k := 0) columns.length texts).1, rows.fit⟩, fun k => ?_,
        rows.suffix.trans (toRows.trans line.suffix)⟩
      have cells := (rowCells_spec (k := k) columns.length texts).2
      have total := most k
      have parts := line.occurrences_le (m := m) (k := k)
      have less := occurrences_suffix (m := m) (k := k) toRows
      have others := rows.weight k
      simp only [rowsWeight, Block.weight] at others ⊢
      omega
    · cases read

/-! ## Paragraphs -/

/-- How often a token stands in some lines. -/
def linesWeight (m : Marking) (k : Nat) (lines : List ContentLine) : Nat :=
  (lines.map fun line => m.occurrences k line.text).sum

/-- Lines of a block that were read from the start of a text. -/
structure LinesRead (m : Marking) (cs : List Char) (lines : List ContentLine) (rest : List Char) : Prop where
  /-- All lines are fit. -/
  fit : ∀ line ∈ lines, line.Fit m
  /-- Every line but the last one has an end. -/
  broken : ∀ line ∈ lines.dropLast, line.lineBreak ≠ []
  /-- What is in the lines does not follow them. -/
  weight : ∀ k, linesWeight m k lines + m.occurrences k rest ≤ m.occurrences k cs
  /-- The rest is the end of the text. -/
  suffix : rest <:+ cs

theorem suffix_underline? {level : Nat} (read : underline? cs = some (level, rest)) : rest <:+ cs := by
  unfold underline? at read
  split at read
  · cases read
  · split at read
    · obtain ⟨after, blank, same⟩ := Option.map_eq_some_iff.mp read
      obtain ⟨-, rfl⟩ := Prod.mk.inj same
      exact ((skips_dropBlankLine? blank).suffix.trans (List.dropWhile_suffix _)).trans (List.suffix_cons _ _)
    · cases read

/-- What was taken between two places of a text. -/
theorem Skips.take {p : Char → Bool} (skips : Skips p cs rest) :
    ∀ c ∈ cs.take (cs.length - rest.length), p c = true := by
  obtain ⟨used, rfl, all⟩ := skips
  simpa using all

/-- A line alone. -/
theorem LinesRead.single {line : ContentLine} {next : List Char} (fit : line.Fit m)
    (weight : ∀ k, m.occurrences k line.text + m.occurrences k next ≤ m.occurrences k cs)
    (next_suffix : next <:+ cs) (suffix : rest <:+ next) : LinesRead m cs [line] rest where
  fit := List.forall_mem_cons.mpr ⟨fit, fun _ absent => absurd absent List.not_mem_nil⟩
  broken := fun _ absent => absurd absent List.not_mem_nil
  weight k := by
    have parts := weight k
    have less := occurrences_suffix (m := m) (k := k) suffix
    simp only [linesWeight, List.map_cons, List.map_nil, List.sum_cons, List.sum_nil]
    omega
  suffix := suffix.trans next_suffix

/-- A line with an end in front of others. -/
theorem LinesRead.cons {line : ContentLine} {lines : List ContentLine} {next : List Char} (fit : line.Fit m)
    (weight : ∀ k, m.occurrences k line.text + m.occurrences k next ≤ m.occurrences k cs)
    (next_suffix : next <:+ cs) (broken : line.lineBreak ≠ []) (read : LinesRead m next lines rest) :
    LinesRead m cs (line :: lines) rest where
  fit := List.forall_mem_cons.mpr ⟨fit, read.fit⟩
  broken other member := by
    cases lines with
    | nil => cases member
    | cons first more =>
      rw [List.dropLast_cons_of_ne_nil (by simp)] at member
      rcases List.mem_cons.mp member with rfl | later
      · exact broken
      · exact read.broken other later
  weight k := by
    have parts := weight k
    have others := read.weight k
    simp only [linesWeight, List.map_cons, List.sum_cons] at others ⊢
    omega
  suffix := read.suffix.trans next_suffix

theorem paragraphLines_spec (containers : List Container) (fuel : Nat)
    {skipped indentation : List Char} (genuine : Genuine m cs)
    (skippedMargin : ∀ c ∈ skipped, isMarginChar c = true)
    (indented : ∀ c ∈ indentation, isMarginChar c = true) :
    LinesRead m cs (paragraphLines containers fuel skipped indentation cs).1
      (paragraphLines containers fuel skipped indentation cs).2.2 := by
  induction fuel generalizing cs skipped indentation with
  | zero =>
    exact ⟨fun _ absent => absurd absent List.not_mem_nil, fun _ absent => absurd absent List.not_mem_nil,
      fun k => Nat.le_of_eq (Nat.zero_add _), List.suffix_refl _⟩
  | succ fuel ih =>
    obtain ⟨next, ends⟩ := lineEnd cs
    unfold paragraphLines
    simp only
    rw [ends.ended, Option.getD_some]
    have margin : Skips isMarginChar next (continued containers (.ofLine next)).2.rest :=
      skips_continued containers (.ofLine next)
    generalize continued containers (.ofLine next) = continues at margin
    have inner := continues.2.skips_indent 4
    generalize continues.2.indent 4 = indent at inner
    have body := inner.trans indent.2.skips_skipBlanks
    have weight : ∀ k, m.occurrences k (cs.takeWhile fun c => !isBreak c) + m.occurrences k next ≤
        m.occurrences k cs := fun k => ends.occurrences_le
    have fit : ContentLine.Fit m ⟨skipped, indentation, cs.takeWhile fun c => !isBreak c,
        (cs.drop (cs.takeWhile fun c => !isBreak c).length).take
          ((cs.drop (cs.takeWhile fun c => !isBreak c).length).length - next.length)⟩ :=
      ⟨genuine.line, skippedMargin, indented, ends.isBreak_of_mem⟩
    generalize made : (if (continues.1 == containers.length && decide (0 < indent.1)) = true then
      underline? indent.2.rest else none) = underlined
    split
    next level rest =>
      split at made
      · exact .single fit weight ends.suffix ((suffix_underline? made).trans
          (inner.suffix.trans margin.suffix))
      · cases made
    next =>
      split
      next => exact .single fit weight ends.suffix (List.suffix_refl _)
      next goesOn =>
        have toBody := body.suffix.trans margin.suffix
        refine .cons fit (fun k => ?_) (toBody.trans ends.suffix) ?_
          (ih (genuine.suffix (toBody.trans ends.suffix)) margin.take body.take)
        · have less := occurrences_suffix (m := m) (k := k) toBody
          have parts := weight k
          simp only at parts ⊢
          omega
        · -- The paragraph goes on, so there is a next line, and then this one has an end.
          have some : next ≠ [] := by
            rintro rfl
            obtain ⟨used, nothing, -⟩ := margin.trans body
            simp only [List.nil_eq, List.append_eq_nil_iff] at nothing
            simp [nothing.2, atLineBreak] at goesOn
          have longer := ends.broken some
          have shorter := (skips_dropLineBreak? ends.ended).length_le
          intro nothing
          have size := congrArg List.length nothing
          simp only [List.length_take, List.length_nil] at size
          omega

/-- The lines of a paragraph without what ends the last one. -/
theorem closeLines_spec {lines : List ContentLine} (fit : ∀ line ∈ lines, line.Fit m)
    (broken : ∀ line ∈ lines.dropLast, line.lineBreak ≠ []) :
    (∀ line ∈ Content.closeLines lines, line.Fit m) ∧
      (∀ line ∈ (Content.closeLines lines).dropLast, line.lineBreak ≠ []) ∧
        ∀ k, linesWeight m k (Content.closeLines lines) ≤ linesWeight m k lines := by
  fun_induction Content.closeLines lines with
  | case1 => exact ⟨fit, broken, fun _ => Nat.le_refl _⟩
  | case2 line =>
    have known := fit line List.mem_cons_self
    refine ⟨List.forall_mem_cons.mpr ⟨?_, fun _ absent => absurd absent List.not_mem_nil⟩,
      fun _ absent => absurd absent List.not_mem_nil, fun k => ?_⟩
    · exact ⟨known.text.dropEndWhile fun c => isTokenChar_of_isSpace, known.skipped, known.indentation,
        fun _ absent => absurd absent List.not_mem_nil⟩
    · have less := occurrences_dropEndWhile (m := m) (k := k) isSpace line.text
      simp only [linesWeight, List.map_cons, List.map_nil, List.sum_cons, List.sum_nil]
      exact Nat.add_le_add_right less 0
  | case3 line rest several ih =>
    obtain ⟨first, others⟩ := List.forall_mem_cons.mp fit
    have some : rest ≠ [] := fun nothing => several (by rw [nothing])
    rw [List.dropLast_cons_of_ne_nil some] at broken
    obtain ⟨ends, later⟩ := List.forall_mem_cons.mp broken
    obtain ⟨fits, brokens, weights⟩ := ih others later
    refine ⟨List.forall_mem_cons.mpr ⟨first, fits⟩, ?_, fun k => ?_⟩
    · cases closed : Content.closeLines rest with
      | nil => exact fun _ absent => absurd absent List.not_mem_nil
      | cons next more =>
        rw [closed] at brokens
        rw [List.dropLast_cons_of_ne_nil (by simp)]
        exact List.forall_mem_cons.mpr ⟨ends, brokens⟩
    · have less := weights k
      simp only [linesWeight, List.map_cons, List.sum_cons] at less ⊢
      omega

/-- Text in a line begins a table, a paragraph or a heading, which take their lines from the start of the
    text. -/
theorem paragraph_read (containers : List Container) (before : Char) (task : Option Bool)
    (genuine : Genuine m cs) :
    Block.Read m cs (paragraph containers before task cs).1 (paragraph containers before task cs).2 := by
  unfold paragraph
  split
  next found read => exact table?_spec genuine read
  next =>
    have lines := paragraphLines_spec containers (cs.length + 1) genuine
      (fun _ absent => absurd absent List.not_mem_nil) (fun _ absent => absurd absent List.not_mem_nil)
    generalize paragraphLines containers (cs.length + 1) [] [] cs = read at lines
    obtain ⟨fit, broken, weight⟩ := closeLines_spec lines.fit lines.broken
    have content : ∀ k, Content.weight m k ⟨before, task, false, Content.closeLines read.1⟩ +
        m.occurrences k read.2.2 ≤ m.occurrences k cs := fun k => by
      have most := lines.weight k
      have less := weight k
      simp only [Content.weight, linesWeight] at most less ⊢
      omega
    simp only
    split <;> exact ⟨⟨fit, broken⟩, content, lines.suffix⟩

/-! ## Headings -/

theorem headingText_spec (genuine : Genuine m cs) :
    Genuine m (headingText cs) ∧ ∀ k, m.occurrences k (headingText cs) ≤ m.occurrences k cs := by
  have space : ∀ c : Char, (c == ' ') = true → isTokenChar c = false := fun c same => by
    rw [beq_iff_eq.mp same]
    decide
  have sign : ∀ c : Char, (c == '#') = true → isTokenChar c = false := fun c same => by
    rw [beq_iff_eq.mp same]
    decide
  have text := genuine.dropEndWhile space
  have body := text.dropEndWhile sign
  have cut := body.dropEndWhile space
  unfold headingText
  simp only
  split
  · refine ⟨cut, fun k => ?_⟩
    exact Nat.le_trans (occurrences_dropEndWhile _ _) (Nat.le_trans (occurrences_dropEndWhile _ _)
      (occurrences_dropEndWhile _ _))
  · exact ⟨text, fun k => occurrences_dropEndWhile _ _⟩

/-- A heading takes its line from the start of the text. -/
theorem heading_read (level : Nat) (genuine : Genuine m cs) :
    Block.Read m cs (heading level cs).1 (heading level cs).2 := by
  have inside := genuine.suffix (List.drop_suffix level cs)
  obtain ⟨next, ends⟩ := lineEnd (cs.drop level)
  unfold heading
  simp only
  rw [← List.drop_drop, ends.ended, Option.getD_some]
  have blanks : ((cs.drop level).takeWhile fun c => !isBreak c).dropWhile isSpace <:+
      (cs.drop level).takeWhile fun c => !isBreak c := List.dropWhile_suffix _
  obtain ⟨text, most⟩ := headingText_spec (inside.line.suffix blanks)
  refine ⟨Content.fit_ofText text, fun k => ?_, ends.suffix.trans (List.drop_suffix _ _)⟩
  have less := most k
  have line := occurrences_suffix (m := m) (k := k) blanks
  have parts := ends.occurrences_le (m := m) (k := k)
  have whole := occurrences_suffix (m := m) (k := k) (List.drop_suffix level cs)
  simp only [Block.weight, Content.weight_ofText]
  omega

end Galley.Markdown
