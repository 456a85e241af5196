import Galley.Proofs.Markdown.Levels

/-!
# Where boxes and headings stand

A box is read where an item begins, so no other item begins or ends between the item and its box. The events of a
heading are those of a line.

* `headingsInLine`, `boxesLead` — what holds of the events of a document;
* `Block.Unboxed`, `Outline.BoxesLead` — blocks and outlines in which boxes stand at the beginning of items only;
* `Outline.BoxesLead.readBlock` — a block is read;
* `InPlace`, `Block.Unboxed.inPlace` — the events of such a block;
* `headingsInLine_parse`, `boxesLead_parse` — the events of a document.
-/

namespace Galley.Markdown

/-- Whether an event is a box. -/
def Event.isBox : Event → Bool
  | .taskMarker _ => true
  | _ => false

/-- Whether headings hold only what stands in a line. `inside` tells whether a heading is open. -/
def headingsInLine : (inside : Bool) → List Event → Bool
  | inside, [] => !inside
  | inside, .start (.heading _ _) :: rest => !inside && headingsInLine true rest
  | _, .stop (.heading _ _) :: rest => headingsInLine false rest
  | inside, event :: rest => (!inside || event.isInline || event.isBox) && headingsInLine inside rest

/-- Whether each box stands at the beginning of its item: no other item begins or ends between them, and there is no
    other box. `leads` tells whether a box may come. -/
def boxesLead : (leads : Bool) → List Event → Bool
  | _, [] => true
  | _, .start .item :: rest => boxesLead true rest
  | _, .stop .item :: rest => boxesLead false rest
  | leads, .taskMarker _ :: rest => leads && boxesLead false rest
  | leads, _ :: rest => boxesLead leads rest

variable {events front back inner rest : List Event} {event : Event} {tag : Tag} {leads inside : Bool}

/-- Where no box may come, one may be allowed. -/
theorem boxesLead_mono (lead : boxesLead false events = true) (leads : Bool) : boxesLead leads events = true := by
  induction events with
  | nil => rfl
  | cons event rest ih =>
    cases event with
    | start tag =>
      cases tag with
      | item => exact lead
      | _ => exact ih lead
    | stop tag =>
      cases tag with
      | item => exact lead
      | _ => exact ih lead
    | taskMarker isChecked => cases lead
    | _ => exact ih lead

/-! ## Blocks -/

/-- Whether a block is one that may begin with a box. -/
def Block.isText : Block → Bool
  | .paragraph _ => true
  | .heading _ _ => true
  | .task _ => true
  | _ => false

/-- A block that does not begin with a box, and in which boxes stand at the beginning of items only. -/
inductive Block.Unboxed : Block → Prop where
  | paragraph {content : Content} (noBox : content.task = none) : Unboxed (.paragraph content)
  | heading {level : Nat} {content : Content} (noBox : content.task = none) : Unboxed (.heading level content)
  | code {info : Option (List Char)} {body : List Char} : Unboxed (.code info body)
  | html {markup : List Char} : Unboxed (.html markup)
  | rule : Unboxed .rule
  | table {columns : List Alignment} {head : List Content} {rows : List (List Content)}
      (noBox : ∀ cell ∈ head, cell.task = none) (noBoxes : ∀ row ∈ rows, ∀ cell ∈ row, cell.task = none) :
      Unboxed (.table columns head rows)
  | container {kind : Container} {blocks : List Block} (inner : ∀ block ∈ blocks, Unboxed block) :
      Unboxed (.container kind blocks)
  | item {indent : Nat} {first : Block} {later : List Block} (text : first.isText = true)
      (inner : ∀ block ∈ later, Unboxed block) : Unboxed (.container (.item indent) (first :: later))

theorem noBox_rowCells (columns : Nat) (texts : List (List Char)) :
    ∀ cell ∈ rowCells columns texts, cell.task = none := by
  intro cell member
  obtain ⟨text, -, rfl⟩ := List.mem_map.mp member
  rfl

theorem noBox_tableRows (containers : List Container) (columns fuel : Nat) (cs : List Char) :
    ∀ row ∈ (tableRows containers columns fuel cs).1, ∀ cell ∈ row, cell.task = none := by
  induction fuel generalizing cs with
  | zero => simp [tableRows]
  | succ fuel ih =>
    unfold tableRows
    simp only
    split
    · simp
    · exact List.forall_mem_cons.mpr ⟨noBox_rowCells _ _, ih _⟩

theorem unboxed_table? {containers : List Container} {cs : List Char} {block : Block} {rest : List Char}
    (read : table? containers cs = some (block, rest)) : block.Unboxed := by
  unfold table? at read
  simp only [Option.bind_eq_bind] at read
  split at read
  · cases read
  · simp only [Option.bind_eq_some_iff] at read
    obtain ⟨next, -, inner, -, ⟨columns, after⟩, -, read⟩ := read
    simp only at read
    split at read
    · obtain ⟨rfl, -⟩ := Prod.mk.inj (Option.some.inj read)
      exact .table (noBox_rowCells _ _) (noBox_tableRows _ _ _ _)
    · cases read

/-- A paragraph begins with a box only if it is read behind one. -/
theorem unboxed_paragraph (containers : List Container) (before : Char) (task : Option Bool) (cs : List Char) :
    (paragraph containers before task cs).1.Unboxed ∨
      task ≠ none ∧ (paragraph containers before task cs).1.isText = true := by
  unfold paragraph
  split
  -- a table takes no box, whatever was read in front of it
  next found table => exact .inl (unboxed_table? table)
  next =>
    split
    next lines level rest read =>
      by_cases noBox : task = none
      · left
        cases level with
        | some level => exact .heading noBox
        | none => exact .paragraph noBox
      · right
        refine ⟨noBox, ?_⟩
        cases level <;> rfl

theorem unboxed_leafBlock (containers : List Container) (pending indent : Nat) (margin : Margin) :
    (leafBlock containers pending indent margin).1.Unboxed := by
  unfold leafBlock
  simp only
  split
  next => exact .html
  next =>
  split
  next => exact .rule
  next =>
  split
  next => exact .heading rfl
  next =>
  split
  next => exact .code
  next => exact (unboxed_paragraph _ _ _ _).resolve_right fun boxed => boxed.1 rfl

/-! ## Outlines -/

/-- Whether a container is an item. -/
def Container.isItem : Container → Bool
  | .item _ => true
  | _ => false

/-- Blocks, the latest first, in which boxes stand at the beginning of items only. `inItem` tells whether they are
    those of an item. -/
def Block.Fitting (inItem : Bool) (blocks : List Block) : Prop :=
  (∀ block ∈ blocks, block.Unboxed) ∨
    inItem = true ∧ ∃ first later, blocks = later ++ [first] ∧ first.isText = true ∧
      ∀ block ∈ later, block.Unboxed

theorem Block.Fitting.cons {inItem : Bool} {blocks : List Block} {block : Block}
    (fitting : Block.Fitting inItem blocks) (unboxed : block.Unboxed) : Block.Fitting inItem (block :: blocks) := by
  rcases fitting with all | ⟨item, first, later, rfl, text, others⟩
  · exact .inl (List.forall_mem_cons.mpr ⟨unboxed, all⟩)
  · exact .inr ⟨item, first, block :: later, rfl, text, List.forall_mem_cons.mpr ⟨unboxed, others⟩⟩

/-- Blocks that fit make a container. -/
theorem Block.Fitting.container {kind : Container} {blocks : List Block}
    (fitting : Block.Fitting kind.isItem blocks) : (Block.container kind blocks.reverse).Unboxed := by
  rcases fitting with all | ⟨item, first, later, rfl, text, others⟩
  · exact .container fun block member => all block (List.mem_reverse.mp member)
  · cases kind with
    | item indent =>
      rw [List.reverse_append]
      exact .item text fun block member => others block (List.mem_reverse.mp member)
    | _ => cases item

/-- The blocks of an outline: those of each open container, with whether it is an item, and the finished ones. -/
def Outline.shelves (outline : Outline) : List (Bool × List Block) :=
  outline.opened.map (fun container => (container.kind.isItem, container.blocks)) ++ [(false, outline.blocks)]

/-- An outline in which boxes stand at the beginning of items only. -/
def Outline.BoxesLead (outline : Outline) : Prop :=
  ∀ shelf ∈ outline.shelves, Block.Fitting shelf.1 shelf.2

namespace Outline.BoxesLead

variable {outline : Outline}

theorem of_same {other : Outline} (boxes : outline.BoxesLead) (same : other.shelves = outline.shelves) :
    other.BoxesLead := by
  unfold Outline.BoxesLead
  rw [same]
  exact boxes

theorem add {block : Block} (boxes : outline.BoxesLead) (unboxed : block.Unboxed) : (outline.add block).BoxesLead := by
  unfold Outline.BoxesLead Outline.shelves Outline.add at *
  cases opened : outline.opened with
  | nil =>
    rw [opened] at boxes
    simp only [List.map_nil, List.nil_append, List.forall_mem_singleton] at boxes ⊢
    exact boxes.cons unboxed
  | cons inner outer =>
    rw [opened] at boxes
    obtain ⟨first, others⟩ := List.forall_mem_cons.mp boxes
    exact List.forall_mem_cons.mpr ⟨first.cons unboxed, others⟩

theorem openContainer (boxes : outline.BoxesLead) (kind : Container) : (outline.openContainer kind).BoxesLead :=
  List.forall_mem_cons.mpr ⟨.inl fun _ absent => absurd absent List.not_mem_nil, boxes⟩

/-- A text with a box begins an item. -/
theorem openItem {block : Block} (boxes : outline.BoxesLead) (indent : Nat) (text : block.isText = true) :
    ((outline.openContainer (.item indent)).add block).BoxesLead :=
  have first : Block.Fitting true [block] :=
    .inr ⟨rfl, block, [], rfl, text, fun _ absent => absurd absent List.not_mem_nil⟩
  List.forall_mem_cons.mpr ⟨first, boxes⟩

theorem close (boxes : outline.BoxesLead) : outline.close.BoxesLead := by
  unfold Outline.close
  split
  next => exact boxes
  next inner outer opened =>
    unfold Outline.BoxesLead Outline.shelves at boxes
    rw [opened] at boxes
    obtain ⟨first, others⟩ := List.forall_mem_cons.mp boxes
    exact Outline.BoxesLead.add others first.container

theorem closeTo (boxes : outline.BoxesLead) (depth : Nat) : (outline.closeTo depth).BoxesLead := by
  unfold Outline.closeTo
  generalize List.range (outline.opened.length - depth) = times
  induction times generalizing outline with
  | nil => exact boxes
  | cons _ times ih => exact ih boxes.close

theorem finishEmptyItem (boxes : outline.BoxesLead) : outline.finishEmptyItem.BoxesLead := by
  unfold Outline.finishEmptyItem
  simp only
  split
  · split
    · exact boxes.close.of_same rfl
    · exact boxes.of_same rfl
  · exact boxes.of_same rfl

theorem shelf_loosen (container : OpenContainer) :
    ((Outline.OpenContainer.loosen container).kind.isItem, (Outline.OpenContainer.loosen container).blocks) =
      (container.kind.isItem, container.blocks) := by
  obtain ⟨kind, blocks⟩ := container
  cases kind <;> rfl

theorem finishList (boxes : outline.BoxesLead) : outline.finishList.BoxesLead := by
  unfold Outline.finishList
  simp only
  have closed : (if outline.finishEmptyItem.inList then outline.finishEmptyItem.close
      else outline.finishEmptyItem).BoxesLead := by
    split
    · exact boxes.finishEmptyItem.close
    · exact boxes.finishEmptyItem
  generalize (if outline.finishEmptyItem.inList then outline.finishEmptyItem.close
      else outline.finishEmptyItem) = closedOutline at closed
  split
  · -- a list that turns out to be loose keeps its blocks
    apply closed.of_same
    unfold Outline.shelves
    split
    next inner around outer opened => simp only [opened, List.map_cons, shelf_loosen]
    next => rfl
  · exact closed

theorem continueList (boxes : outline.BoxesLead) (mark : ListMark) : (outline.continueList mark).BoxesLead := by
  unfold Outline.continueList
  simp only
  have finished := boxes.finishEmptyItem
  generalize outline.finishEmptyItem = finishedOutline at finished
  split
  next current isTight blocks outer opened =>
    split
    · apply finished.of_same
      simp [Outline.shelves, opened, Container.isItem]
    · exact (finished.finishList.openContainer _).of_same rfl
  next => exact (finished.openContainer _).of_same rfl
  next => exact (finished.finishList.openContainer _).of_same rfl

theorem noteBlank (boxes : outline.BoxesLead) : outline.noteBlank.BoxesLead := by
  unfold Outline.noteBlank
  split
  next => exact boxes
  next indent blocks outer opened =>
    apply boxes.of_same
    simp [Outline.shelves, opened, Container.isItem]
  next => exact boxes.of_same rfl

theorem openFootnote (boxes : outline.BoxesLead) (label : List Char) : (outline.openFootnote label).BoxesLead := by
  unfold Outline.openFootnote
  simp only
  have finished := boxes.finishList
  generalize outline.finishList = finishedOutline at finished
  split
  · exact (finished.close.openContainer _).of_same rfl
  · exact (finished.openContainer _).of_same rfl

/-- A box is read where its item begins. -/
theorem readItem (boxes : outline.BoxesLead) (mark : ListMark) (indent : Nat) (margin : Margin) :
    (readItem outline mark indent margin).1.BoxesLead := by
  unfold Markdown.readItem
  simp only
  -- the list comes first: what it closes is in place before the item opens
  have list := boxes.continueList mark
  have opened := list.openContainer (.item indent)
  split
  next => exact opened.of_same rfl
  next =>
    split
    next => exact opened
    next isChecked rest _ =>
      split
      next => exact (list.openItem indent rfl).of_same rfl
      next =>
        rcases unboxed_paragraph _ ' ' (some isChecked) _ with unboxed | ⟨-, text⟩
        · exact opened.add unboxed
        · exact list.openItem indent text

theorem readContainers (boxes : outline.BoxesLead) (fuel : Nat) (margin : Margin) :
    (readContainers fuel outline margin).1.BoxesLead := by
  induction fuel generalizing outline margin with
  | zero => exact boxes
  | succ fuel ih =>
    unfold Markdown.readContainers
    simp only
    split
    · exact boxes
    split
    next => exact ih (boxes.openFootnote _) _
    next =>
    split
    next mark width body _ =>
      have item := boxes.readItem mark width body
      split
      next inside rest read =>
        rw [read] at item
        exact ih item _
      next => exact item
    next =>
    split
    next => exact ih (boxes.finishList.openContainer _) _
    next => exact boxes

theorem readLeaf (boxes : outline.BoxesLead) (margin : Margin) : (readLeaf outline margin).1.BoxesLead := by
  unfold Markdown.readLeaf
  simp only
  split
  · exact (boxes.add .code).of_same rfl
  · split
    next => exact boxes.of_same rfl
    next => exact boxes.add (unboxed_leafBlock _ _ _ _)

theorem readBlock (boxes : outline.BoxesLead) (cs : List Char) : (readBlock outline cs).1.BoxesLead := by
  unfold Markdown.readBlock
  simp only
  generalize continued outline.containers (.ofLine cs) = continues
  have containers := (boxes.closeTo continues.1).readContainers (continues.2.rest.length + 1) continues.2
  split
  next inside rest read =>
    rw [read] at containers
    exact containers
  next inside margin read =>
    rw [read] at containers
    split
    next => exact containers.noteBlank
    next => exact containers.finishList.readLeaf _

theorem readBlocks (boxes : outline.BoxesLead) (cs : List Char) : (readBlocks outline cs).BoxesLead := by
  fun_induction Markdown.readBlocks outline cs with
  | case1 => exact boxes
  | case2 outline cs some next rest read shorter ih =>
    apply ih
    have block := boxes.readBlock cs
    rwa [read] at block
  | case3 outline cs some next rest read stuck =>
    have block := boxes.readBlock cs
    rwa [read] at block

end Outline.BoxesLead

/-! ## Events -/

/-- Events whose headings and boxes are in place, whatever follows: they close the headings that they open, and boxes
    stand at the beginning of items only. `leads` tells whether they may begin with a box. -/
structure InPlace (leads : Bool) (events : List Event) : Prop where
  boxes : ∀ room rest, (leads = true → room = true) → boxesLead false rest = true →
    boxesLead room (events ++ rest) = true
  headings : ∀ rest, headingsInLine false (events ++ rest) = headingsInLine false rest

theorem boxesLead_of_isInline (inLine : ∀ event ∈ events, event.isInline = true) (leads : Bool)
    (rest : List Event) : boxesLead leads (events ++ rest) = boxesLead leads rest := by
  induction events with
  | nil => rfl
  | cons event more ih =>
    obtain ⟨first, others⟩ := List.forall_mem_cons.mp inLine
    have skipped : boxesLead leads (event :: (more ++ rest)) = boxesLead leads (more ++ rest) := by
      cases event with
      | start tag => cases tag <;> first | rfl | cases first
      | stop tag => cases tag <;> first | rfl | cases first
      | taskMarker isChecked => cases first
      | _ => rfl
    rw [List.cons_append, skipped, ih others]

theorem headingsInLine_start (other : ∀ level id, tag ≠ .heading level id) :
    headingsInLine inside (.start tag :: rest) = ((!inside || tag.isInline) && headingsInLine inside rest) := by
  cases tag with
  | heading level id => exact absurd rfl (other level id)
  | _ => simp [headingsInLine, Event.isInline, Event.isBox]

theorem headingsInLine_stop (other : ∀ level id, tag ≠ .heading level id) :
    headingsInLine inside (.stop tag :: rest) = ((!inside || tag.isInline) && headingsInLine inside rest) := by
  cases tag with
  | heading level id => exact absurd rfl (other level id)
  | _ => simp [headingsInLine, Event.isInline, Event.isBox]

/-- What stands in a line may stand in a heading. -/
theorem headingsInLine_of_isInline (inLine : ∀ event ∈ events, (event.isInline || event.isBox) = true)
    (inside : Bool) (rest : List Event) : headingsInLine inside (events ++ rest) = headingsInLine inside rest := by
  have line {tag : Tag} (own : tag.isInline = true) : ∀ level id, tag ≠ .heading level id := by
    rintro level id rfl
    cases own
  induction events with
  | nil => rfl
  | cons event more ih =>
    obtain ⟨first, others⟩ := List.forall_mem_cons.mp inLine
    have skipped : headingsInLine inside (event :: (more ++ rest)) = headingsInLine inside (more ++ rest) := by
      cases event with
      | start tag =>
        have own : tag.isInline = true := by simpa [Event.isInline, Event.isBox] using first
        rw [headingsInLine_start (line own), own, Bool.or_true, Bool.true_and]
      | stop tag =>
        have own : tag.isInline = true := by simpa [Event.isInline, Event.isBox] using first
        rw [headingsInLine_stop (line own), own, Bool.or_true, Bool.true_and]
      | html markup => cases first
      | rule => cases first
      | _ => simp [headingsInLine, Event.isInline, Event.isLeaf, Event.isBox]
    rw [List.cons_append, skipped, ih others]

namespace InPlace

theorem nil : InPlace false [] where
  boxes room _ _ lead := boxesLead_mono lead room
  headings _ := rfl

theorem append (first : InPlace leads front) (second : InPlace false back) : InPlace leads (front ++ back) where
  boxes room rest may lead := by
    rw [List.append_assoc]
    exact first.boxes room _ may (second.boxes false rest (by simp) lead)
  headings rest := by rw [List.append_assoc, first.headings, second.headings]

theorem flatMap {α : Type} {f : α → List Event} {items : List α}
    (each : ∀ item ∈ items, InPlace false (f item)) : InPlace false (items.flatMap f) := by
  induction items with
  | nil => exact .nil
  | cons item more ih =>
    obtain ⟨first, others⟩ := List.forall_mem_cons.mp each
    rw [List.flatMap_cons]
    exact first.append (ih others)

/-- Events may come where a box might. -/
theorem mono (inPlace : InPlace false events) (leads : Bool) : InPlace leads events where
  boxes room rest _ lead := inPlace.boxes room rest (by simp) lead
  headings := inPlace.headings

/-- A tag that is no heading and no item changes nothing. -/
theorem tagged (inPlace : InPlace leads inner) (noItem : tag ≠ .item)
    (noHeading : ∀ level id, tag ≠ .heading level id) : InPlace leads (tagged tag inner) where
  boxes room rest may lead := by
    have skipped (room : Bool) (events : List Event) :
        boxesLead room (.start tag :: events) = boxesLead room events ∧
          boxesLead room (.stop tag :: events) = boxesLead room events := by
      cases tag <;> first | exact ⟨rfl, rfl⟩ | exact absurd rfl noItem
    rw [Markdown.tagged, List.cons_append, (skipped _ _).1, List.append_assoc]
    apply inPlace.boxes room _ may
    rw [List.singleton_append, (skipped _ _).2]
    exact lead
  headings rest := by
    rw [Markdown.tagged, List.cons_append, headingsInLine_start noHeading, List.append_assoc, inPlace.headings,
      List.singleton_append, headingsInLine_stop noHeading]
    rfl

/-- An item may begin with a box. -/
theorem item (inPlace : InPlace leads inner) : InPlace false (Markdown.tagged .item inner) where
  boxes _ _ _ lead := by
    rw [Markdown.tagged, List.cons_append, List.append_assoc]
    exact inPlace.boxes true _ (fun _ => rfl) lead
  headings rest := by
    rw [Markdown.tagged, List.cons_append, headingsInLine_start (by simp), List.append_assoc, inPlace.headings,
      List.singleton_append, headingsInLine_stop (by simp)]
    rfl

theorem line (inLine : ∀ event ∈ events, event.isInline = true) : InPlace false events where
  boxes room _ _ lead := by
    rw [boxesLead_of_isInline inLine]
    exact boxesLead_mono lead room
  headings rest := by
    apply headingsInLine_of_isInline
    intro event member
    rw [inLine event member, Bool.true_or]

end InPlace

/-- The events of a text: a box at most in front, and what stands in a line behind it. -/
theorem contentEvents_cases (definitions : Definitions) (content : Content) :
    ∃ inline, (∀ event ∈ inline, event.isInline = true) ∧
      contentEvents definitions content =
        content.task.elim inline fun isChecked => .taskMarker isChecked :: inline := by
  have tame := tame_contentNodes definitions content
  refine ⟨_, isInline_of_mem_eventsOf _ tame.1, ?_⟩
  unfold contentEvents Content.nodes
  cases content.task with
  | none => rfl
  | some isChecked => rfl

theorem inPlace_contentEvents (definitions : Definitions) {content : Content} (noBox : content.task = none) :
    InPlace false (contentEvents definitions content) := by
  obtain ⟨inline, inLine, same⟩ := contentEvents_cases definitions content
  rw [same, noBox]
  exact .line inLine

theorem inPlace_leading (definitions : Definitions) (content : Content) :
    InPlace true (contentEvents definitions content) := by
  obtain ⟨inline, inLine, same⟩ := contentEvents_cases definitions content
  have inPlace := InPlace.line inLine
  rw [same]
  cases content.task with
  | none => exact inPlace.mono true
  | some isChecked =>
    constructor
    · intro room rest may lead
      rw [may rfl]
      exact inPlace.boxes false rest (by simp) lead
    · intro rest
      exact inPlace.headings rest

/-- The text of a heading stands in a line. -/
theorem InPlace.heading {definitions : Definitions} {content : Content} {level : Nat}
    (inPlace : InPlace leads (contentEvents definitions content)) :
    InPlace leads (Markdown.tagged (.heading level none) (contentEvents definitions content)) where
  boxes room _ may lead := by
    rw [Markdown.tagged, List.cons_append, List.append_assoc]
    exact inPlace.boxes room _ may lead
  headings rest := by
    obtain ⟨inline, inLine, same⟩ := contentEvents_cases definitions content
    have inside : ∀ event ∈ contentEvents definitions content, (event.isInline || event.isBox) = true := by
      rw [same]
      intro event member
      cases task : content.task with
      | none =>
        rw [task] at member
        rw [inLine event member, Bool.true_or]
      | some isChecked =>
        rw [task] at member
        rcases List.mem_cons.mp member with rfl | later
        · rfl
        · rw [inLine event later, Bool.true_or]
    rw [Markdown.tagged, List.cons_append, List.append_assoc]
    show headingsInLine true _ = _
    rw [headingsInLine_of_isInline inside]
    rfl

theorem inPlace_rowEvents {definitions : Definitions} (noItem : tag ≠ .item)
    (noHeading : ∀ level id, tag ≠ .heading level id) {cells : List Content}
    (noBox : ∀ cell ∈ cells, cell.task = none) : InPlace false (rowEvents definitions tag cells) := by
  apply InPlace.tagged _ noItem noHeading
  apply InPlace.flatMap
  intro cell member
  exact (inPlace_contentEvents definitions (noBox cell member)).tagged (by simp) (by simp)

theorem inPlace_eventsOf {definitions : Definitions} {isTight : Bool} {blocks : List Block}
    (each : ∀ block ∈ blocks, InPlace false (block.events definitions isTight)) :
    InPlace false (Block.eventsOf definitions isTight blocks) := by
  induction blocks with
  | nil => exact .nil
  | cons block more ih =>
    obtain ⟨first, others⟩ := List.forall_mem_cons.mp each
    exact first.append (ih others)

theorem Block.inPlace_of_isText {block : Block} (text : block.isText = true) (definitions : Definitions)
    (isTight : Bool) : InPlace true (block.events definitions isTight) := by
  cases block with
  | paragraph content =>
    have inner := inPlace_leading definitions content
    unfold Block.events
    simp only
    split
    · exact inner
    · exact inner.tagged (by simp) (by simp)
  | heading level content => exact (inPlace_leading definitions content).heading
  | task isChecked =>
    constructor
    · intro room rest may lead
      rw [may rfl]
      exact lead
    · intro rest
      rfl
  | _ => cases text

theorem Block.Unboxed.inPlace {block : Block} (unboxed : block.Unboxed) (definitions : Definitions) (isTight : Bool) :
    InPlace false (block.events definitions isTight) := by
  induction unboxed generalizing isTight with
  | paragraph noBox =>
    have inner := inPlace_contentEvents definitions noBox
    unfold Block.events
    simp only
    split
    · exact inner
    · exact inner.tagged (by simp) (by simp)
  | heading noBox => exact (inPlace_contentEvents definitions noBox).heading
  | @code info body =>
    have inner : InPlace false (if body.isEmpty then [] else [Event.text (.ofList body)]) := by
      apply InPlace.line
      split
      · simp
      · simp [Event.isInline, Event.isLeaf]
    exact inner.tagged (by simp) (by simp)
  | html => exact ⟨fun room _ _ lead => boxesLead_mono lead room, fun _ => rfl⟩
  | rule => exact ⟨fun room _ _ lead => boxesLead_mono lead room, fun _ => rfl⟩
  | table noBox noBoxes =>
    have rows := InPlace.flatMap fun row member =>
      @inPlace_rowEvents .tableRow definitions (by simp) (by simp) row (noBoxes row member)
    exact ((inPlace_rowEvents (by simp) (by simp) noBox).append rows).tagged (by simp) (by simp)
  | @container kind blocks inner ih =>
    have inPlace (isTight : Bool) : InPlace false (Block.eventsOf definitions isTight blocks) :=
      inPlace_eventsOf fun block member => ih block member isTight
    cases kind with
    | item indent => exact (inPlace isTight).item
    | _ => exact (inPlace _).tagged (by simp [Container.tag]) (by simp [Container.tag])
  | item text inner ih =>
    -- the item begins with its first block, so the box of that block may come
    have first := Block.inPlace_of_isText text definitions isTight
    exact (first.append (inPlace_eventsOf fun block member => ih block member isTight)).item

/-! ## Documents -/

/-- Texts that are joined change nothing about what may stand where. -/
theorem boxesLead_mergeText (leads : Bool) (events : List Event) :
    boxesLead leads (mergeText events) = boxesLead leads events := by
  induction events generalizing leads with
  | nil => rfl
  | cons event rest ih =>
    have joined : boxesLead leads (consMerged event (mergeText rest)) = boxesLead leads (event :: mergeText rest) := by
      unfold consMerged
      split
      next same => rw [same]; rfl
      next => rfl
    refine joined.trans ?_
    cases event with
    | start tag => cases tag <;> exact ih _
    | stop tag => cases tag <;> exact ih _
    | taskMarker isChecked => exact congrArg (leads && ·) (ih false)
    | _ => exact ih _

theorem headingsInLine_mergeText (inside : Bool) (events : List Event) :
    headingsInLine inside (mergeText events) = headingsInLine inside events := by
  induction events generalizing inside with
  | nil => rfl
  | cons event rest ih =>
    have joined : headingsInLine inside (consMerged event (mergeText rest)) =
        headingsInLine inside (event :: mergeText rest) := by
      unfold consMerged
      split
      next same => rw [same]; simp [headingsInLine, Event.isInline, Event.isLeaf]
      next => rfl
    refine joined.trans ?_
    cases event with
    | start tag => cases tag <;> simp [headingsInLine, ih]
    | stop tag => cases tag <;> simp [headingsInLine, ih]
    | _ => simp [headingsInLine, ih]

theorem inPlace_ofText (text : String) :
    InPlace false (Block.eventsOf (Outline.ofText text).definitions false (Outline.ofText text).blocks.reverse) := by
  have start : Outline.empty.BoxesLead :=
    List.forall_mem_singleton.mpr (.inl fun _ absent => absurd absent List.not_mem_nil)
  have boxes : (Outline.ofText text).BoxesLead := (start.readBlocks text.toList).closeTo 0
  have finished : Block.Fitting false (Outline.ofText text).blocks :=
    boxes _ (List.mem_append_right _ (List.mem_singleton.mpr rfl))
  rcases finished with all | ⟨absurd', -⟩
  · apply inPlace_eventsOf
    intro block member
    exact (all block (List.mem_reverse.mp member)).inPlace _ _
  · cases absurd'

/-- In a document each box stands at the beginning of its item. -/
theorem boxesLead_parse (text : String) : boxesLead false (parse text) = true := by
  have inPlace := (inPlace_ofText text).boxes false [] (by simp) rfl
  rw [List.append_nil] at inPlace
  exact (boxesLead_mergeText _ _).trans inPlace

/-- In a document headings hold only what stands in a line. -/
theorem headingsInLine_parse (text : String) : headingsInLine false (parse text) = true := by
  have inPlace := (inPlace_ofText text).headings []
  rw [List.append_nil] at inPlace
  exact (headingsInLine_mergeText _ _).trans inPlace

end Galley.Markdown
