import Galley.Markdown.Document
import Galley.Proofs.Markdown.Paragraph
import Galley.Proofs.Text.Case

/-!
# Reading marked texts into an outline

While a document is read, a token is either in a finished part of the outline or in the text that is left.
Every step of the reading keeps it so.

* `Outline.weight` — how often a token stands in an outline;
* `Reads` — what holds of an outline and the text that is left;
* `Reads.readContainers`, `Reads.readLeaf`, `Reads.readBlock` — the steps of the reading;
* `reads_ofText` — the outline of a document.
-/

namespace Galley.Markdown

open Galley.Source (Marking)

variable {m : Marking} {k : Nat} {total : Nat → Nat} {outline : Outline} {cs rest : List Char}

/-- How often a token stands in an outline: in its blocks, or in the label of a footnote. -/
def Outline.weight (m : Marking) (k : Nat) (outline : Outline) : Nat :=
  Block.weightAll m k outline.blocks +
    (outline.opened.map fun container => Block.weightAll m k container.blocks).sum +
    (outline.definitions.footnotes.map (m.occurrences k)).sum

/-- An outline with whole tokens and the text that is left: together they hold no more tokens than there
    are. -/
structure Reads (m : Marking) (total : Nat → Nat) (outline : Outline) (rest : List Char) : Prop where
  /-- Finished blocks have whole tokens. -/
  blocks : Block.FitAll m outline.blocks
  /-- So have the blocks of open containers. -/
  opened : ∀ container ∈ outline.opened, Block.FitAll m container.blocks
  /-- So have the targets that were defined. -/
  links : ∀ link ∈ outline.definitions.links, link.2.Whole m
  /-- There are no more tokens. -/
  most : ∀ k, outline.weight m k + m.occurrences k rest ≤ total k
  /-- What is left is genuine. -/
  genuine : Genuine m rest

namespace Reads

/-- Only the blocks and the definitions count. -/
theorem of_same {outline' : Outline} (reads : Reads m total outline rest)
    (blocks : outline'.blocks = outline.blocks) (opened : outline'.opened = outline.opened)
    (definitions : outline'.definitions = outline.definitions) : Reads m total outline' rest where
  blocks := blocks ▸ reads.blocks
  opened := opened ▸ reads.opened
  links := definitions ▸ reads.links
  most k := by
    rw [Outline.weight, blocks, opened, definitions]
    exact reads.most k
  genuine := reads.genuine

/-- A part of the text that is left out. -/
theorem move (reads : Reads m total outline cs) (suffix : rest <:+ cs) : Reads m total outline rest where
  blocks := reads.blocks
  opened := reads.opened
  links := reads.links
  most k := Nat.le_trans (Nat.add_le_add_left (occurrences_suffix suffix) _) (reads.most k)
  genuine := reads.genuine.suffix suffix

theorem addBlock (reads : Reads m total outline rest) (block : Block) (fit : block.Fit m) :
    Reads m (fun k => block.weight m k + total k) (outline.add block) rest := by
  obtain ⟨blocks, opened, links, most, genuine⟩ := reads
  unfold Outline.add
  split
  next none =>
    refine ⟨⟨fit, blocks⟩, opened, links, fun k => ?_, genuine⟩
    have most := most k
    simp only [Outline.weight, Block.weightAll] at most ⊢
    omega
  next inner outer some =>
    rw [some] at opened
    obtain ⟨first, others⟩ := List.forall_mem_cons.mp opened
    refine ⟨blocks, List.forall_mem_cons.mpr ⟨⟨fit, first⟩, others⟩, links, fun k => ?_, genuine⟩
    have most := most k
    simp only [Outline.weight, some, List.map_cons, List.sum_cons, Block.weightAll] at most ⊢
    omega

/-- A block that was read from the text. -/
theorem add {block : Block} (reads : Reads m total outline cs) (read : Block.Read m cs block rest) :
    Reads m total (outline.add block) rest := by
  have without : Reads m (fun k => total k - block.weight m k) outline rest :=
    { reads.move read.suffix with
      most := fun k => by
        have most := reads.most k
        have weight := read.weight k
        omega }
  have whole := without.addBlock block read.fit
  refine { whole with most := fun k => Nat.le_trans (whole.most k) ?_ }
  have most := reads.most k
  have weight := read.weight k
  omega

theorem openContainer (reads : Reads m total outline rest) (kind : Container) :
    Reads m total (outline.openContainer kind) rest where
  blocks := reads.blocks
  opened := List.forall_mem_cons.mpr ⟨trivial, reads.opened⟩
  links := reads.links
  most k := by
    have most := reads.most k
    simp only [Outline.weight, Outline.openContainer, List.map_cons, List.sum_cons, Block.weightAll]
      at most ⊢
    omega
  genuine := reads.genuine

theorem close (reads : Reads m total outline rest) : Reads m total outline.close rest := by
  unfold Outline.close
  split
  next => exact reads
  next inner outer some =>
    obtain ⟨blocks, opened, links, most, genuine⟩ := reads
    rw [some] at opened
    obtain ⟨first, others⟩ := List.forall_mem_cons.mp opened
    -- Without the container the rest of the outline leaves room for it.
    have without : Reads m (fun k => total k - Block.weightAll m k inner.blocks)
        { outline with opened := outer } rest := by
      refine ⟨blocks, others, links, fun k => ?_, genuine⟩
      have most := most k
      simp only [Outline.weight, some, List.map_cons, List.sum_cons] at most ⊢
      omega
    have whole := without.addBlock (.container inner.kind inner.blocks.reverse)
      (Block.fitAll_reverse.mpr first)
    refine { whole with most := fun k => Nat.le_trans (whole.most k) ?_ }
    have most := most k
    simp only [Block.weight, Block.weightAll_reverse]
    simp only [Outline.weight, some, List.map_cons, List.sum_cons] at most
    omega

theorem closeTo (reads : Reads m total outline rest) (depth : Nat) :
    Reads m total (outline.closeTo depth) rest := by
  unfold Outline.closeTo
  generalize List.range (outline.opened.length - depth) = times
  induction times generalizing outline with
  | nil => exact reads
  | cons _ times ih => exact ih reads.close

theorem finishEmptyItem (reads : Reads m total outline rest) :
    Reads m total outline.finishEmptyItem rest := by
  have settled : ∀ {other : Outline}, Reads m total other rest →
      Reads m total { other with inEmptyItem := false } rest := fun reads => reads.of_same rfl rfl rfl
  unfold Outline.finishEmptyItem
  simp only
  split
  · split
    · exact settled reads.close
    · exact settled reads
  · exact settled reads

/-- Only the kind of an open container changes. -/
theorem of_kinds {opened : List OpenContainer} (reads : Reads m total outline rest)
    (same : opened.map OpenContainer.blocks = outline.opened.map OpenContainer.blocks) :
    Reads m total { outline with opened } rest where
  blocks := reads.blocks
  opened container member := by
    have blocks := List.mem_map_of_mem (f := OpenContainer.blocks) member
    rw [same] at blocks
    obtain ⟨other, inside, equal⟩ := List.mem_map.mp blocks
    exact equal ▸ reads.opened other inside
  links := reads.links
  most k := by
    have most := reads.most k
    have sums := congrArg (fun blocks => (blocks.map (Block.weightAll m k)).sum) same
    simp only [List.map_map] at sums
    simp only [Outline.weight] at most ⊢
    change _ + (opened.map (Block.weightAll m k ∘ OpenContainer.blocks)).sum + _ + _ ≤ _
    rw [sums]
    exact most
  genuine := reads.genuine

theorem blocks_loosen (container : OpenContainer) :
    (Outline.OpenContainer.loosen container).blocks = container.blocks := by
  unfold Outline.OpenContainer.loosen
  split <;> rfl

theorem finishList (reads : Reads m total outline rest) : Reads m total outline.finishList rest := by
  unfold Outline.finishList
  simp only
  have closed : Reads m total (if outline.finishEmptyItem.inList then outline.finishEmptyItem.close
      else outline.finishEmptyItem) rest := by
    split
    · exact reads.finishEmptyItem.close
    · exact reads.finishEmptyItem
  generalize (if outline.finishEmptyItem.inList then outline.finishEmptyItem.close
      else outline.finishEmptyItem) = closedOutline at closed
  split
  · refine (closed.of_kinds ?_).of_same rfl rfl rfl
    split
    next some => rw [some]; simp [blocks_loosen]
    next => rfl
  · exact closed

theorem continueList (reads : Reads m total outline rest) (mark : ListMark) :
    Reads m total (outline.continueList mark) rest := by
  unfold Outline.continueList
  simp only
  have finished := reads.finishEmptyItem
  generalize outline.finishEmptyItem = finishedOutline at finished
  have start : ∀ {other : Outline}, Reads m total other rest →
      Reads m total { other.openContainer (.list mark true) with afterBlank := false } rest :=
    fun reads => (reads.openContainer _).of_same rfl rfl rfl
  split
  next current isTight blocks outer some =>
    split
    · refine (finished.of_kinds ?_).of_same rfl rfl rfl
      rw [some]
      rfl
    · exact start finished.finishList
  next => exact start finished
  next => exact start finished.finishList

theorem noteBlank (reads : Reads m total outline rest) : Reads m total outline.noteBlank rest := by
  unfold Outline.noteBlank
  split
  next => exact reads
  next indent blocks outer some =>
    refine (reads.of_kinds ?_).of_same rfl rfl rfl
    rw [some]
    rfl
  next => exact reads.of_same rfl rfl rfl

end Reads

/-! ## Marks at the start of a line -/

/-- The text that is left after a line. -/
def LineRest.text : LineRest → List Char
  | .line margin => margin.rest
  | .done rest => rest

theorem suffix_listMark? {mark : ListMark} {width : Nat} (read : listMark? cs = some (mark, width, rest)) :
    rest <:+ cs := by
  unfold listMark? at read
  split at read
  · cases read
  next c more =>
    split at read
    · simp only [Option.some.injEq, Prod.mk.injEq] at read
      rw [← read.2.2]
      exact List.suffix_cons _ _
    · simp only at read
      split at read
      · cases read
      next d after here =>
        split at read
        · simp only [Option.some.injEq, Prod.mk.injEq] at read
          rw [← read.2.2]
          exact (List.suffix_cons d after).trans (here ▸ List.drop_suffix _ _)
        · cases read

theorem suffix_itemMargin? {outer indent : Nat} {margin body : Margin} {mark : ListMark}
    (read : itemMargin? outer margin = some (mark, indent, body)) : body.rest <:+ margin.rest := by
  unfold itemMargin? at read
  simp only [Option.bind_eq_bind, Option.bind_eq_some_iff] at read
  obtain ⟨⟨mark', width, after⟩, marked, read⟩ := read
  simp only at read
  have toAfter := suffix_listMark? marked
  split at read
  · cases read
  · have inner := Margin.skips_indent 1 ⟨mark'.mark, after, margin.column + width, margin.pending⟩
    generalize Margin.indent 1 ⟨mark'.mark, after, margin.column + width, margin.pending⟩ = one at inner read
    have more := one.2.skips_indent 4
    generalize one.2.indent 4 = four at more read
    have first := inner.suffix.trans toAfter
    split at read
    · simp only [Option.some.injEq, Prod.mk.injEq] at read
      rw [← read.2.2]
      exact first
    · split at read
      · simp only [Option.some.injEq, Prod.mk.injEq] at read
        rw [← read.2.2]
        exact first
      · simp only [Option.some.injEq, Prod.mk.injEq] at read
        rw [← read.2.2]
        exact more.suffix.trans first

theorem suffix_taskMark? {isChecked : Bool} (read : taskMark? cs = some (isChecked, rest)) : rest <:+ cs := by
  unfold taskMark? at read
  split at read
  next c d more =>
    have suffix : d :: more <:+ '[' :: c :: ']' :: d :: more :=
      ((List.suffix_cons _ _).trans (List.suffix_cons _ _)).trans (List.suffix_cons _ _)
    split at read
    · split at read
      · rw [← (Prod.mk.inj (Option.some.inj read)).2]
        exact suffix
      · split at read
        · rw [← (Prod.mk.inj (Option.some.inj read)).2]
          exact suffix
        · cases read
    · cases read
  · cases read

/-- The label of a footnote holds no token of the text behind it. -/
theorem footnoteMark?_spec {label : List Char} (genuine : Genuine m cs)
    (read : footnoteMark? cs = some (label, rest)) :
    m.Tokened label ∧ (∀ k, m.occurrences k label + m.occurrences k rest ≤ m.occurrences k cs) ∧ rest <:+ cs := by
  unfold footnoteMark? at read
  split at read
  next body =>
    simp only [Option.bind_eq_bind, Option.bind_eq_some_iff] at read
    obtain ⟨⟨label', after⟩, labelled, read⟩ := read
    obtain ⟨tokened, most, used, whole⟩ :=
      label?_spec (fun _ _ absent => by cases absent) genuine.tokened.2.2 labelled
    simp only at read whole most
    split at read
    next more =>
      obtain ⟨rfl, rfl⟩ := Prod.mk.inj (Option.some.inj read)
      have blanks : more.dropWhile isSpace <:+ ':' :: more :=
        (List.dropWhile_suffix _).trans (List.suffix_cons ':' more)
      have body : body <:+ '[' :: '^' :: body := (List.suffix_cons '^' _).trans (List.suffix_cons '[' _)
      refine ⟨tokened, fun k => ?_, ?_⟩
      · have read := most k
        have skipped := occurrences_suffix (m := m) (k := k) blanks
        have marked := occurrences_suffix (m := m) (k := k) body
        omega
      · refine (blanks.trans ?_).trans body
        rw [whole]
        exact (List.suffix_cons ']' _).trans (List.suffix_append used _)
    · cases read
  · cases read

namespace Reads

theorem readItem {margin : Margin} (reads : Reads m total outline margin.rest) (mark : ListMark)
    (indent : Nat) :
    Reads m total (readItem outline mark indent margin).1 (readItem outline mark indent margin).2.text := by
  unfold Markdown.readItem
  simp only
  have opened := (reads.continueList mark).openContainer (.item indent)
  generalize (outline.continueList mark).openContainer (.item indent) = inside at opened
  split
  next rest blank =>
    exact (opened.move (skips_dropBlankLine? blank).suffix).of_same rfl rfl rfl
  next =>
    split
    next => exact opened
    next isChecked rest marked =>
      have suffix := (suffix_taskMark? marked).trans (margin.skips_indent 3).suffix
      split
      next next blank =>
        have task := (opened.move ((skips_dropBlankLine? blank).suffix.trans suffix)).addBlock
          (.task isChecked) trivial
        exact Reads.of_same { task with most := fun k => Nat.le_trans (task.most k) (by
          simp [Block.weight]) } rfl rfl rfl
      next =>
        have text := (List.dropWhile_suffix isSpace).trans suffix
        exact (opened.move text).add (paragraph_read _ _ _ (opened.genuine.suffix text))

/-- The label of a footnote is paid for by its text. -/
theorem addFootnote {label : List Char} (reads : Reads m total outline cs) (whole : m.Tokened label)
    (most : ∀ k, m.occurrences k label + m.occurrences k rest ≤ m.occurrences k cs) (suffix : rest <:+ cs) :
    Reads m total { outline with definitions := outline.definitions.addFootnote label } rest := by
  have moved := reads.move suffix
  refine ⟨moved.blocks, moved.opened, moved.links, fun k => ?_, moved.genuine⟩
  have held := reads.most k
  have labelled := most k
  have folded := (Text.escapes_foldChar.derived label).occurrences_le (k := k) whole
  simp only [Outline.weight, Definitions.addFootnote, Text.fold, List.map_cons, List.sum_cons] at held ⊢
  omega

theorem openFootnote {label : List Char} (reads : Reads m total outline cs) (whole : m.Tokened label)
    (most : ∀ k, m.occurrences k label + m.occurrences k rest ≤ m.occurrences k cs) (suffix : rest <:+ cs) :
    Reads m total (outline.openFootnote label) rest := by
  unfold Outline.openFootnote
  simp only
  have finished := reads.finishList
  generalize outline.finishList = finishedOutline at finished
  refine (@openContainer m total _ cs ?_ (.footnote label)).addFootnote whole most suffix
  split
  · exact finished.close
  · exact finished

theorem readContainers (fuel : Nat) {margin : Margin} (reads : Reads m total outline margin.rest) :
    Reads m total (readContainers fuel outline margin).1 (readContainers fuel outline margin).2.text := by
  induction fuel generalizing outline margin with
  | zero => exact reads
  | succ fuel ih =>
    unfold Markdown.readContainers
    simp only
    have inner := (margin.skips_indent 4).suffix
    generalize margin.indent 4 = indent at inner
    split
    · exact reads
    split
    next label rest marked =>
      obtain ⟨whole, most, suffix⟩ := footnoteMark?_spec (reads.genuine.suffix inner) marked
      exact ih ((reads.move inner).openFootnote whole most suffix)
    next =>
    split
    next mark width body marked =>
      have item := (reads.move ((suffix_itemMargin? marked).trans inner)).readItem mark width
      split
      next outline' margin' read =>
        rw [read] at item
        exact ih item
      next => exact item
    next =>
    split
    next body quoted =>
      exact ih ((reads.move ((Margin.skips_quoteMark? quoted).suffix.trans inner)).finishList.openContainer _)
    next => exact reads

end Reads

/-! ## Blocks -/

theorem suffix_ruleEnd? (read : ruleEnd? cs = some rest) : rest <:+ cs := by
  unfold ruleEnd? at read
  split at read
  · cases read
  · simp only at read
    split at read
    · exact (skips_dropLineBreak? read).suffix.trans (List.drop_suffix _ _)
    · cases read

theorem isTokenChar_of_isSpaceOrBreak {c : Char} (blank : isSpaceOrBreak c = true) :
    Source.isTokenChar c = false := by
  simp only [isSpaceOrBreak, Bool.or_eq_true, beq_iff_eq] at blank
  rcases blank with (space | rfl) | rfl
  · exact isTokenChar_of_isSpace space
  · decide
  · decide

/-- A fenced block takes its lines from the start of the text, the info text from the first one. -/
theorem fenced_read (containers : List Container) (fence : FenceOpening) (indent fuel : Nat)
    (genuine : Genuine m cs) :
    Block.Read m cs
      (.code (some (unescape (Text.dropEndWhile isSpaceOrBreak
          ((splitLine (cs.drop fence.length)).1.dropWhile isSpace))))
        (fencedCode containers fence indent fuel (splitLine (cs.drop fence.length)).2).1)
      (fencedCode containers fence indent fuel (splitLine (cs.drop fence.length)).2).2 := by
  have start := List.drop_suffix fence.length cs
  have whole := (splitLine_spec (cs.drop fence.length)).1
  have line := (genuine.suffix start).splitLine
  have toNext := (suffix_splitLine (cs.drop fence.length)).trans start
  obtain ⟨code, weight, suffix⟩ := fencedCode_spec containers fence indent fuel (genuine.suffix toNext)
  have blanks := List.dropWhile_suffix (l := (splitLine (cs.drop fence.length)).1) isSpace
  have info : Genuine m (Text.dropEndWhile isSpaceOrBreak
      ((splitLine (cs.drop fence.length)).1.dropWhile isSpace)) :=
    (line.suffix blanks).dropEndWhile fun c => isTokenChar_of_isSpaceOrBreak
  have derived := derived_unescape info.unforged
  refine ⟨⟨fun text same => ?_, code⟩, fun k => ?_, suffix.trans toNext⟩
  · rw [← Option.some.inj same]
    exact derived.tokened info.tokened
  · have read := derived.occurrences_le (k := k) info.tokened
    have trimmed := occurrences_dropEndWhile (m := m) (k := k) isSpaceOrBreak
      ((splitLine (cs.drop fence.length)).1.dropWhile isSpace)
    have first := occurrences_suffix (m := m) (k := k) blanks
    have cut := m.occurrences_append_le (k := k) (splitLine (cs.drop fence.length)).1
      (splitLine (cs.drop fence.length)).2
    have later := weight k
    have all := occurrences_suffix (m := m) (k := k) start
    rw [whole] at cut
    simp only [Block.weight, Option.elim_some]
    omega

theorem leafBlock_read (containers : List Container) (pending indent : Nat) {margin : Margin}
    (genuine : Genuine m margin.rest) :
    Block.Read m margin.rest (leafBlock containers pending indent margin).1
      (leafBlock containers pending indent margin).2 := by
  unfold leafBlock
  simp only
  split
  next =>
    obtain ⟨whole, weight, suffix⟩ := markup_spec _ _ _ _ genuine
    exact ⟨whole, weight, suffix⟩
  next =>
  split
  next rest ruled =>
    exact ⟨trivial, fun k => by
      simpa [Block.weight] using occurrences_suffix (suffix_ruleEnd? ruled), suffix_ruleEnd? ruled⟩
  next =>
  split
  next => exact heading_read _ genuine
  next =>
  split
  next => exact fenced_read _ _ _ _ genuine
  next => exact paragraph_read _ _ _ genuine

namespace Reads

theorem readLeaf {margin : Margin} (reads : Reads m total outline margin.rest) :
    Reads m total (readLeaf outline margin).1 (readLeaf outline margin).2 := by
  unfold Markdown.readLeaf
  simp only
  have inner := (margin.skips_indent 4).suffix
  generalize margin.indent 4 = indent at inner
  have inside := reads.genuine.suffix inner
  split
  · obtain ⟨code, weight, suffix⟩ :=
      indentedCode_spec outline.containers (indent.2.rest.length + 1) indent.2 inside
    generalize indentedCode outline.containers (indent.2.rest.length + 1) indent.2 = read at code weight suffix
    have block : Block.Read m indent.2.rest (.code none read.1) read.2.2 :=
      ⟨⟨fun _ absent => (by cases absent), code⟩, fun k => by simpa [Block.weight] using weight k, suffix⟩
    exact ((reads.move inner).add block).of_same rfl rfl rfl
  · split
    next label target rest defined =>
      obtain ⟨whole, suffix⟩ := linkDefinition?_spec inside defined
      have moved := reads.move (((suffix_getD_dropBlankLine? rest).trans suffix).trans inner)
      refine { moved with links := fun link member => ?_, most := moved.most }
      rcases List.mem_append.mp member with old | new
      · exact moved.links link old
      · rw [List.mem_singleton.mp new]
        exact whole
    next => exact (reads.move inner).add (leafBlock_read _ _ _ inside)

theorem readBlock (reads : Reads m total outline cs) :
    Reads m total (readBlock outline cs).1 (readBlock outline cs).2 := by
  unfold Markdown.readBlock
  simp only
  have margin := suffix_continued outline.containers cs
  generalize continued outline.containers (.ofLine cs) = continues at margin
  have containers := ((reads.move margin).closeTo continues.1).readContainers
    (continues.2.rest.length + 1)
  split
  next outline' rest read =>
    rw [read] at containers
    exact containers
  next outline' inner read =>
    rw [read] at containers
    split
    next rest blank => exact (containers.move (skips_dropBlankLine? blank).suffix).noteBlank
    next => exact containers.finishList.readLeaf

theorem readBlocks (reads : Reads m total outline cs) :
    ∃ rest, Reads m total (readBlocks outline cs) rest := by
  fun_induction Markdown.readBlocks outline cs with
  | case1 outline cs isEmpty => exact ⟨cs, reads⟩
  | case2 outline cs some next rest read shorter ih =>
    have block := reads.readBlock
    rw [read] at block
    exact ih block
  | case3 outline cs some next rest read stuck =>
    have block := reads.readBlock
    rw [read] at block
    exact ⟨rest, block⟩

end Reads

/-- The outline of a genuine text holds its tokens, each at most as often as the text does. -/
theorem reads_ofText {text : String} (genuine : Genuine m text.toList) :
    Reads m (fun k => m.occurrences k text.toList) (.ofText text) [] := by
  have start : Reads m (fun k => m.occurrences k text.toList) .empty text.toList :=
    ⟨trivial, fun _ absent => absurd absent List.not_mem_nil,
      fun _ absent => absurd absent List.not_mem_nil, fun k => Nat.le_of_eq (Nat.zero_add _), genuine⟩
  obtain ⟨rest, reads⟩ := start.readBlocks
  exact (reads.closeTo 0).move (List.nil_suffix)

end Galley.Markdown
