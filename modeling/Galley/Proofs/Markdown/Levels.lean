import Galley.Proofs.Markdown.Outlines
import Galley.Proofs.Markdown.Pieces

/-!
# The levels of headings

A heading has one of the levels 1 to 6, whatever the document is. Lines of text make no headings, so the levels come from
the blocks that the document is read into.

* `Event.Graded`, `Block.Graded` — no heading has another level;
* `graded_contentEvents` — the events of a line;
* `Outline.Graded.readBlock` — a block is read;
* `graded_parse` — the events of a document.
-/

namespace Galley.Markdown

/-- The levels of headings. -/
def IsLevel (level : Nat) : Prop := 1 ≤ level ∧ level ≤ 6

/-- An event with no other level. -/
def Event.Graded : Event → Prop
  | .start (.heading level _) => IsLevel level
  | .stop (.heading level _) => IsLevel level
  | _ => True

/-! ## Lines -/

theorem graded_of_isInline {event : Event} (isInline : event.isInline = true) : event.Graded := by
  cases event with
  | start tag => cases tag <;> trivial
  | stop tag => cases tag <;> trivial
  | _ => trivial

/-- The events of a line belong into a line, but for the box in front of it. -/
theorem inline_contentEvents (definitions : Definitions) (content : Content) :
    ∀ event ∈ contentEvents definitions content, event.isInline = true ∨ ∃ isChecked, event = .taskMarker isChecked := by
  have inline : ∀ event ∈ Node.eventsOf (pairDelimiters
      (resolve (.ofContent content) definitions [] [] (tokens content)).reverse), event.isInline = true :=
    isInline_of_mem_eventsOf _ (tame_contentNodes definitions content).1
  unfold contentEvents Content.nodes
  simp only
  split
  next isChecked _ =>
    rw [Node.eventsOf]
    exact List.forall_mem_cons.mpr ⟨.inr ⟨isChecked, rfl⟩, fun event member => .inl (inline event member)⟩
  next => exact fun event member => .inl (inline event member)

theorem graded_contentEvents (definitions : Definitions) (content : Content) :
    ∀ event ∈ contentEvents definitions content, event.Graded := by
  intro event member
  rcases inline_contentEvents definitions content event member with isInline | ⟨isChecked, rfl⟩
  · exact graded_of_isInline isInline
  · trivial

/-! ## Blocks -/

/-- A block with no heading of another level. -/
inductive Block.Graded : Block → Prop where
  | paragraph {content : Content} : Graded (.paragraph content)
  | heading {level : Nat} {content : Content} (isLevel : IsLevel level) : Graded (.heading level content)
  | code {info : Option (List Char)} {body : List Char} : Graded (.code info body)
  | html {markup : List Char} : Graded (.html markup)
  | rule : Graded .rule
  | table {columns : List Alignment} {head : List Content} {rows : List (List Content)} :
      Graded (.table columns head rows)
  | task {isChecked : Bool} : Graded (.task isChecked)
  | container {kind : Container} {blocks : List Block} (inner : ∀ block ∈ blocks, Graded block) :
      Graded (.container kind blocks)

theorem isLevel_headingLevel? {cs : List Char} {level : Nat} (read : headingLevel? cs = some level) : IsLevel level := by
  unfold headingLevel? at read
  simp only at read
  split at read
  next within =>
    simp only [Bool.and_eq_true, decide_eq_true_eq] at within
    obtain rfl := Option.some.inj read
    exact within.1
  next => cases read

theorem isLevel_underline? {cs rest : List Char} {level : Nat} (read : underline? cs = some (level, rest)) :
    IsLevel level := by
  unfold underline? at read
  split at read
  · cases read
  · split at read
    · obtain ⟨after, -, same⟩ := Option.map_eq_some_iff.mp read
      obtain ⟨rfl, -⟩ := Prod.mk.inj same
      split <;> exact ⟨by decide, by decide⟩
    · cases read

theorem isLevel_paragraphLines {containers : List Container} {fuel : Nat} {skipped indentation cs : List Char}
    {level : Nat} (read : (paragraphLines containers fuel skipped indentation cs).2.1 = some level) : IsLevel level := by
  induction fuel generalizing skipped indentation cs with
  | zero => cases read
  | succ fuel ih =>
    unfold paragraphLines at read
    simp only at read
    split at read
    next found rest underlined =>
      obtain rfl := Option.some.inj read
      split at underlined
      · exact isLevel_underline? underlined
      · cases underlined
    next =>
      split at read
      · cases read
      · exact ih read

theorem graded_table? {containers : List Container} {cs : List Char} {block : Block} {rest : List Char}
    (read : table? containers cs = some (block, rest)) : block.Graded := by
  unfold table? at read
  simp only [Option.bind_eq_bind] at read
  split at read
  · cases read
  · simp only [Option.bind_eq_some_iff] at read
    obtain ⟨next, -, inner, -, ⟨columns, after⟩, -, read⟩ := read
    simp only at read
    split at read
    · obtain ⟨rfl, -⟩ := Prod.mk.inj (Option.some.inj read)
      exact .table
    · cases read

theorem graded_paragraph (containers : List Container) (before : Char) (task : Option Bool) (cs : List Char) :
    (paragraph containers before task cs).1.Graded := by
  unfold paragraph
  split
  next found table =>
    exact graded_table? table
  next =>
    split
    next lines level rest read =>
      split
      next level =>
        apply Block.Graded.heading
        apply isLevel_paragraphLines
        rw [read]
      next => exact .paragraph

theorem graded_leafBlock (containers : List Container) (pending indent : Nat) (margin : Margin) :
    (leafBlock containers pending indent margin).1.Graded := by
  unfold leafBlock
  simp only
  split
  next => exact .html
  next =>
  split
  next => exact .rule
  next =>
  split
  next level read => exact .heading (isLevel_headingLevel? read)
  next =>
  split
  next => exact .code
  next => exact graded_paragraph _ _ _ _

/-! ## Outlines -/

/-- All blocks of an outline, finished or in a container that is open. -/
def Outline.stock (outline : Outline) : List Block := outline.opened.flatMap OpenContainer.blocks ++ outline.blocks

theorem Outline.mem_stock_add {outline : Outline} {block other : Block} :
    other ∈ (outline.add block).stock ↔ other = block ∨ other ∈ outline.stock := by
  unfold Outline.add Outline.stock
  split
  next none =>
    simp [none]
  next inner outer some =>
    simp [some]

/-- An outline with no heading of another level. -/
def Outline.Graded (outline : Outline) : Prop := ∀ block ∈ outline.stock, block.Graded

namespace Outline.Graded

variable {outline : Outline}

theorem of_same {other : Outline} (graded : outline.Graded) (same : other.stock = outline.stock) : other.Graded := by
  unfold Outline.Graded
  rw [same]
  exact graded

theorem add {block : Block} (graded : outline.Graded) (own : block.Graded) : (outline.add block).Graded := by
  intro other member
  rcases mem_stock_add.mp member with rfl | old
  · exact own
  · exact graded other old

theorem openContainer (graded : outline.Graded) (kind : Container) : (outline.openContainer kind).Graded :=
  graded.of_same rfl

theorem close (graded : outline.Graded) : outline.close.Graded := by
  unfold Outline.close
  split
  next => exact graded
  next inner outer opened =>
    have whole : outline.stock = inner.blocks ++ ({ outline with opened := outer } : Outline).stock := by
      simp [Outline.stock, opened]
    unfold Outline.Graded at graded
    rw [whole, List.forall_mem_append] at graded
    apply Outline.Graded.add graded.2
    apply Block.Graded.container
    intro block member
    exact graded.1 block (List.mem_reverse.mp member)

theorem closeTo (graded : outline.Graded) (depth : Nat) : (outline.closeTo depth).Graded := by
  unfold Outline.closeTo
  generalize List.range (outline.opened.length - depth) = times
  induction times generalizing outline with
  | nil => exact graded
  | cons _ times ih => exact ih graded.close

theorem finishEmptyItem (graded : outline.Graded) : outline.finishEmptyItem.Graded := by
  unfold Outline.finishEmptyItem
  simp only
  split
  · split
    · exact graded.close.of_same rfl
    · exact graded.of_same rfl
  · exact graded.of_same rfl

theorem finishList (graded : outline.Graded) : outline.finishList.Graded := by
  unfold Outline.finishList
  simp only
  have closed : (if outline.finishEmptyItem.inList then outline.finishEmptyItem.close
      else outline.finishEmptyItem).Graded := by
    split
    · exact graded.finishEmptyItem.close
    · exact graded.finishEmptyItem
  generalize (if outline.finishEmptyItem.inList then outline.finishEmptyItem.close
      else outline.finishEmptyItem) = closedOutline at closed
  split
  · -- A list that turns out to be loose keeps its blocks.
    apply closed.of_same
    unfold Outline.stock
    split
    next inner around outer opened => simp [opened, Reads.blocks_loosen]
    next => rfl
  · exact closed

theorem continueList (graded : outline.Graded) (mark : ListMark) : (outline.continueList mark).Graded := by
  unfold Outline.continueList
  simp only
  have finished := graded.finishEmptyItem
  generalize outline.finishEmptyItem = finishedOutline at finished
  split
  next current isTight blocks outer opened =>
    split
    · apply finished.of_same
      simp [Outline.stock, opened]
    · exact (finished.finishList.openContainer _).of_same rfl
  next => exact (finished.openContainer _).of_same rfl
  next => exact (finished.finishList.openContainer _).of_same rfl

theorem noteBlank (graded : outline.Graded) : outline.noteBlank.Graded := by
  unfold Outline.noteBlank
  split
  next => exact graded
  next indent blocks outer opened =>
    apply graded.of_same
    simp [Outline.stock, opened]
  next => exact graded.of_same rfl

theorem openFootnote (graded : outline.Graded) (label : List Char) : (outline.openFootnote label).Graded := by
  unfold Outline.openFootnote
  simp only
  have finished := graded.finishList
  generalize outline.finishList = finishedOutline at finished
  split
  · exact (finished.close.openContainer _).of_same rfl
  · exact (finished.openContainer _).of_same rfl

theorem readItem (graded : outline.Graded) (mark : ListMark) (indent : Nat) (margin : Margin) :
    (readItem outline mark indent margin).1.Graded := by
  unfold Markdown.readItem
  simp only
  have opened := (graded.continueList mark).openContainer (.item indent)
  generalize (outline.continueList mark).openContainer (.item indent) = inside at opened
  split
  next => exact opened.of_same rfl
  next =>
    split
    next => exact opened
    next isChecked rest _ =>
      split
      next => exact (opened.add .task).of_same rfl
      next => exact opened.add (graded_paragraph _ _ _ _)

theorem readContainers (graded : outline.Graded) (fuel : Nat) (margin : Margin) :
    (readContainers fuel outline margin).1.Graded := by
  induction fuel generalizing outline margin with
  | zero => exact graded
  | succ fuel ih =>
    unfold Markdown.readContainers
    simp only
    split
    · exact graded
    split
    next => exact ih (graded.openFootnote _) _
    next =>
    split
    next mark width body _ =>
      have item := graded.readItem mark width body
      split
      next inside rest read =>
        rw [read] at item
        exact ih item _
      next => exact item
    next =>
    split
    next => exact ih (graded.finishList.openContainer _) _
    next => exact graded

theorem readLeaf (graded : outline.Graded) (margin : Margin) : (readLeaf outline margin).1.Graded := by
  unfold Markdown.readLeaf
  simp only
  split
  · exact (graded.add .code).of_same rfl
  · split
    next => exact graded.of_same rfl
    next => exact graded.add (graded_leafBlock _ _ _ _)

theorem readBlock (graded : outline.Graded) (cs : List Char) : (readBlock outline cs).1.Graded := by
  unfold Markdown.readBlock
  simp only
  generalize continued outline.containers (.ofLine cs) = continues
  have containers := (graded.closeTo continues.1).readContainers (continues.2.rest.length + 1) continues.2
  split
  next inside rest read =>
    rw [read] at containers
    exact containers
  next inside margin read =>
    rw [read] at containers
    split
    next => exact containers.noteBlank
    next => exact containers.finishList.readLeaf _

theorem readBlocks (graded : outline.Graded) (cs : List Char) : (readBlocks outline cs).Graded := by
  fun_induction Markdown.readBlocks outline cs with
  | case1 => exact graded
  | case2 outline cs some next rest read shorter ih =>
    apply ih
    have block := graded.readBlock cs
    rwa [read] at block
  | case3 outline cs some next rest read stuck =>
    have block := graded.readBlock cs
    rwa [read] at block

end Outline.Graded

/-! ## Documents -/

theorem graded_tagged {tag : Tag} {events : List Event} (other : ∀ level id, tag ≠ .heading level id)
    (inner : ∀ event ∈ events, event.Graded) : ∀ event ∈ tagged tag events, event.Graded := by
  unfold tagged
  rw [List.forall_mem_cons, List.forall_mem_append, List.forall_mem_singleton]
  cases tag with
  | heading level id => exact absurd rfl (other level id)
  | _ => exact ⟨trivial, inner, trivial⟩

theorem graded_rowEvents {definitions : Definitions} {tag : Tag} (other : ∀ level id, tag ≠ .heading level id)
    (cells : List Content) : ∀ event ∈ rowEvents definitions tag cells, event.Graded := by
  apply graded_tagged other
  intro event member
  obtain ⟨cell, -, inside⟩ := List.mem_flatMap.mp member
  apply graded_tagged _ (graded_contentEvents definitions cell) event inside
  simp

theorem graded_eventsOf {definitions : Definitions} {isTight : Bool} {blocks : List Block}
    (each : ∀ block ∈ blocks, ∀ event ∈ block.events definitions isTight, event.Graded) :
    ∀ event ∈ Block.eventsOf definitions isTight blocks, event.Graded := by
  induction blocks with
  | nil => simp [Block.eventsOf]
  | cons block rest ih =>
    obtain ⟨first, others⟩ := List.forall_mem_cons.mp each
    rw [Block.eventsOf]
    exact List.forall_mem_append.mpr ⟨first, ih others⟩

theorem Block.Graded.events {block : Block} (graded : block.Graded) (definitions : Definitions) (isTight : Bool) :
    ∀ event ∈ block.events definitions isTight, event.Graded := by
  induction graded generalizing isTight with
  | @paragraph content =>
    have inner := graded_contentEvents definitions content
    unfold Block.events
    simp only
    split
    · exact inner
    · exact graded_tagged (by simp) inner
  | heading isLevel =>
    unfold Block.events tagged
    rw [List.forall_mem_cons, List.forall_mem_append, List.forall_mem_singleton]
    exact ⟨isLevel, graded_contentEvents definitions _, isLevel⟩
  | code =>
    unfold Block.events
    apply graded_tagged (by simp)
    split
    · simp
    · simp [Event.Graded]
  | html => simp [Block.events, Event.Graded]
  | rule => simp [Block.events, Event.Graded]
  | table =>
    unfold Block.events
    apply graded_tagged (by simp)
    rw [List.forall_mem_append]
    refine ⟨graded_rowEvents (by simp) _, ?_⟩
    intro event member
    obtain ⟨row, -, inside⟩ := List.mem_flatMap.mp member
    exact graded_rowEvents (by simp) row event inside
  | task => simp [Block.events, Event.Graded]
  | @container kind blocks inner ih =>
    unfold Block.events
    apply graded_tagged (by cases kind <;> simp [Container.tag])
    exact graded_eventsOf fun block member => ih block member _

theorem graded_mergeText {events : List Event} (graded : ∀ event ∈ events, event.Graded) :
    ∀ event ∈ mergeText events, event.Graded := by
  induction events with
  | nil => exact graded
  | cons event rest ih =>
    obtain ⟨first, others⟩ := List.forall_mem_cons.mp graded
    have merged := ih others
    change ∀ other ∈ consMerged event (mergeText rest), other.Graded
    unfold consMerged
    split
    next a b more joined =>
      rw [joined] at merged
      exact List.forall_mem_cons.mpr ⟨trivial, (List.forall_mem_cons.mp merged).2⟩
    next => exact List.forall_mem_cons.mpr ⟨first, merged⟩

/-- Every heading of a document has one of the levels 1 to 6. -/
theorem graded_parse (text : String) : ∀ event ∈ parse text, event.Graded := by
  have start : Outline.empty.Graded := fun _ absent => absurd absent List.not_mem_nil
  have graded : (Outline.ofText text).Graded := (start.readBlocks text.toList).closeTo 0
  apply graded_mergeText
  apply graded_eventsOf
  intro block member
  apply Block.Graded.events
  apply graded block
  exact List.mem_append_right _ (List.mem_reverse.mp member)

end Galley.Markdown
