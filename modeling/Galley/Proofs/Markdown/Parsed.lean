import Galley.Proofs.Markdown.Outlines
import Galley.Proofs.Markdown.Pieces

/-!
# Parsed documents

A document without forged tokens is read into events with whole tokens, and together they hold no token more
often than the document does.

* `Recorded` — the tokens of some events, and how many there are;
* `recorded_events` — the events of a block;
* `nests_blockEvents`, `leavesImages_blockEvents` — the tags and the images of a block;
* `recorded_parse`, `nested_parse`, `imagesPlain_parse` — the events of a document;
* `silent_label` — references to footnotes.
-/

namespace Galley.Markdown

open Galley.Source (Marking)

variable {m : Marking} {n p : Nat → Nat} {definitions : Definitions} {events front back : List Event}

/-- Events with whole tokens, each at most as often as `n` says, and references to footnotes that there are. -/
structure Recorded (m : Marking) (definitions : Definitions) (n : Nat → Nat) (events : List Event) : Prop where
  /-- The tokens are whole, and references lead to footnotes. -/
  proper : ∀ event ∈ events, event.Proper m definitions
  /-- There are no more tokens. -/
  most : ∀ k, (events.map (Event.load m k)).sum ≤ n k

namespace Recorded

theorem mono (recorded : Recorded m definitions n events) (le : ∀ k, n k ≤ p k) : Recorded m definitions p events :=
  ⟨recorded.proper, fun k => Nat.le_trans (recorded.most k) (le k)⟩

theorem nil : Recorded m definitions n [] := ⟨fun _ absent => absurd absent List.not_mem_nil, fun _ => Nat.zero_le _⟩

theorem append (first : Recorded m definitions n front) (second : Recorded m definitions p back) :
    Recorded m definitions (fun k => n k + p k) (front ++ back) where
  proper := List.forall_mem_append.mpr ⟨first.proper, second.proper⟩
  most k := by
    rw [List.map_append, List.sum_append]
    exact Nat.add_le_add (first.most k) (second.most k)

theorem single (event : Event) (proper : event.Proper m definitions) :
    Recorded m definitions (fun k => event.load m k) [event] :=
  ⟨fun _ member => List.mem_singleton.mp member ▸ proper, fun k => by simp⟩

/-- A tag adds what stands in its start. -/
theorem taggedWith (tag : Tag) (recorded : Recorded m definitions n events) (start : (Event.start tag).Whole m) :
    Recorded m definitions (fun k => (Event.start tag).load m k + n k) (tagged tag events) :=
  (single _ ⟨start, trivial⟩).append ((recorded.append (single (.stop tag) ⟨trivial, trivial⟩)).mono fun _ => Nat.le_refl _)

/-- A tag without tokens. -/
theorem tagged (tag : Tag) (recorded : Recorded m definitions n events) (start : (Event.start tag).Whole m)
    (free : ∀ k, (Event.start tag).load m k = 0) : Recorded m definitions n (tagged tag events) :=
  (recorded.taggedWith tag start).mono fun k => by rw [free]; omega

end Recorded

/-! ## The events of blocks -/

theorem recorded_contentEvents {content : Content} (fit : content.Fit m)
    (targets : ∀ link ∈ definitions.links, link.2.Whole m) :
    Recorded m definitions (fun k => content.weight m k) (contentEvents definitions content) :=
  ⟨(nodes_spec fit targets).1, (nodes_spec fit targets).2⟩

/-- A list of parts, each with its own tokens. -/
theorem recorded_flatMap {α : Type} {items : List α} {events : α → List Event} {weight : α → Nat → Nat}
    (recorded : ∀ item ∈ items, Recorded m definitions (weight item) (events item)) :
    Recorded m definitions (fun k => (items.map fun item => weight item k).sum) (items.flatMap events) := by
  induction items with
  | nil => exact .nil
  | cons item rest ih =>
    obtain ⟨first, others⟩ := List.forall_mem_cons.mp recorded
    exact first.append (ih others)

theorem recorded_rowEvents (tag : Tag) {cells : List Content} (start : (Event.start tag).Whole m)
    (free : ∀ k, (Event.start tag).load m k = 0) (fit : ∀ cell ∈ cells, cell.Fit m)
    (targets : ∀ link ∈ definitions.links, link.2.Whole m) :
    Recorded m definitions (fun k => (cells.map (Content.weight m k)).sum) (rowEvents definitions tag cells) :=
  (recorded_flatMap fun cell member =>
    (recorded_contentEvents (fit cell member) targets).tagged .tableCell trivial fun _ => rfl).tagged tag
      start free

mutual

/-- The events of a block hold the tokens of its texts. -/
theorem recorded_events (targets : ∀ link ∈ definitions.links, link.2.Whole m) (isTight : Bool) :
    (block : Block) → block.Fit m →
      Recorded m definitions (fun k => block.weight m k) (block.events definitions isTight)
  | .paragraph content, fit => by
    have content := recorded_contentEvents fit targets
    unfold Block.events
    simp only
    split
    · exact content
    · exact content.tagged .paragraph trivial fun _ => rfl
  | .heading level content, fit =>
    (recorded_contentEvents fit targets).tagged (.heading level none) (fun _ absent => by cases absent)
      fun _ => rfl
  | .code info body, fit => by
    have code : (Event.text (.ofList body)).Whole m := by
      rw [Event.Whole, String.toList_ofList]
      exact fit.2
    have inner : Recorded m definitions (fun k => m.occurrences k body)
        (if body.isEmpty then [] else [.text (.ofList body)]) := by
      split
      · exact .nil
      · refine (Recorded.single _ ⟨code, trivial⟩).mono fun k => Nat.le_of_eq ?_
        rw [Event.load, String.toList_ofList]
    have start : (Event.start (.codeBlock (info.map String.ofList))).Whole m := by
      cases info with
      | none => trivial
      | some text =>
        rw [Event.Whole, Option.map_some, Option.getD_some, String.toList_ofList]
        exact fit.1 text rfl
    refine (inner.taggedWith _ start).mono fun k => ?_
    cases info with
    | none => exact Nat.le_refl _
    | some text =>
      rw [Event.load, Option.map_some, Option.getD_some, String.toList_ofList]
      exact Nat.le_refl _
  | .html markup, fit => by
    have whole : (Event.html (.ofList markup)).Whole m := by
      rw [Event.Whole, String.toList_ofList]
      exact fit
    refine (Recorded.single _ ⟨whole, trivial⟩).mono fun k => Nat.le_of_eq ?_
    rw [Event.load, String.toList_ofList, Block.weight]
  | .rule, _ => .single .rule ⟨trivial, trivial⟩
  | .table columns head rows, fit => by
    have first := recorded_rowEvents .tableHead trivial (fun _ => rfl) fit.1 targets
    have others := recorded_flatMap fun row member =>
      recorded_rowEvents .tableRow trivial (fun _ => rfl) (fit.2 row member) targets
    exact (first.append others).tagged (.table columns) trivial fun _ => rfl
  | .task isChecked, _ => .single (.taskMarker isChecked) ⟨trivial, trivial⟩
  | .container kind blocks, fit => by
    have inner := fun isTight => recorded_eventsOf targets isTight blocks fit
    have free : ∀ k, (Event.start kind.tag).load m k = 0 := fun k => by cases kind <;> rfl
    have start : (Event.start kind.tag).Whole m := by cases kind <;> trivial
    exact (inner _).tagged kind.tag start free

/-- The events of some blocks hold the tokens of their texts. -/
theorem recorded_eventsOf (targets : ∀ link ∈ definitions.links, link.2.Whole m) (isTight : Bool) :
    (blocks : List Block) → Block.FitAll m blocks →
      Recorded m definitions (fun k => Block.weightAll m k blocks) (Block.eventsOf definitions isTight blocks)
  | [], _ => .nil
  | block :: rest, fit =>
    (recorded_events targets isTight block fit.1).append (recorded_eventsOf targets isTight rest fit.2)

end

/-! ## The tags of blocks -/

theorem allowedIn_between {event : Event} {stack : List Tag} (within : BetweenBlocks stack) :
    event.AllowedIn stack :=
  ⟨fun image => by simp [within.1] at image, fun code => by simp [within.2] at code⟩

theorem nests_between {event : Event} (noStart : ∀ tag, event ≠ .start tag)
    (noStop : ∀ tag, event ≠ .stop tag) : Nests BetweenBlocks [event] :=
  .single (fun _ => allowedIn_between) noStart noStop

/-- A tag that holds neither code nor the text of an image. -/
theorem nests_tagged {tag : Tag} (nests : Nests BetweenBlocks events)
    (other : inImage [tag] = false ∧ inCode [tag] = false) : Nests BetweenBlocks (tagged tag events) :=
  nests.tagged (fun _ => allowedIn_between) fun stack within => by
    simp only [inImage, inCode, List.any_cons, List.any_nil, Bool.or_false] at other
    simp only [BetweenBlocks, inImage, inCode, List.any_cons] at within ⊢
    rw [other.1, other.2, within.1, within.2]
    exact ⟨rfl, rfl⟩

theorem nests_rowEvents (definitions : Definitions) {tag : Tag} (cells : List Content)
    (other : inImage [tag] = false ∧ inCode [tag] = false) :
    Nests BetweenBlocks (rowEvents definitions tag cells) :=
  nests_tagged (.flatMap fun cell _ => nests_tagged (nests_contentEvents definitions cell) ⟨rfl, rfl⟩) other

mutual

/-- The tags of a block are closed. -/
theorem nests_blockEvents (definitions : Definitions) (isTight : Bool) :
    (block : Block) → Nests BetweenBlocks (block.events definitions isTight)
  | .paragraph content => by
    have content := nests_contentEvents definitions content
    unfold Block.events
    simp only
    split
    · exact content
    · exact nests_tagged content ⟨rfl, rfl⟩
  | .heading level content => nests_tagged (nests_contentEvents definitions content) ⟨rfl, rfl⟩
  | .code info body => by
    have inner : Nests (fun _ => True) (if body.isEmpty then [] else [.text (.ofList body)]) := by
      split
      · exact .nil
      · refine .single (fun stack _ => ⟨fun _ => rfl, fun _ => ⟨_, rfl⟩⟩) (fun _ => by simp) fun _ => by simp
    exact inner.tagged (fun _ => allowedIn_between) fun _ _ => trivial
  | .html markup => nests_between (fun _ => by simp) fun _ => by simp
  | .rule => nests_between (fun _ => by simp) fun _ => by simp
  | .table columns head rows =>
    nests_tagged ((nests_rowEvents definitions head ⟨rfl, rfl⟩).append
      (.flatMap fun row _ => nests_rowEvents definitions row ⟨rfl, rfl⟩)) ⟨rfl, rfl⟩
  | .task isChecked => nests_between (fun _ => by simp) fun _ => by simp
  | .container kind blocks =>
    nests_tagged (nests_blocksEvents definitions _ blocks) (by cases kind <;> exact ⟨rfl, rfl⟩)

/-- The tags of some blocks are closed. -/
theorem nests_blocksEvents (definitions : Definitions) (isTight : Bool) :
    (blocks : List Block) → Nests BetweenBlocks (Block.eventsOf definitions isTight blocks)
  | [] => .nil
  | block :: rest => (nests_blockEvents definitions isTight block).append (nests_blocksEvents definitions isTight rest)

end

/-! ## The images of blocks -/

/-- Events between blocks that break no rule for images, whatever follows. -/
def LeavesImages (events : List Event) : Prop :=
  ∀ rest, imagesPlain 0 (events ++ rest) = imagesPlain 0 rest

namespace LeavesImages

theorem nil : LeavesImages [] := fun _ => rfl

theorem append (first : LeavesImages front) (second : LeavesImages back) : LeavesImages (front ++ back) := by
  intro rest
  rw [List.append_assoc, first, second]

theorem flatMap {α : Type} {items : List α} {events : α → List Event} (all : ∀ item, LeavesImages (events item)) :
    LeavesImages (items.flatMap events) := by
  induction items with
  | nil => exact nil
  | cons item rest ih => exact (all item).append ih

theorem around {tag : Tag} (leaves : LeavesImages events) (other : inImage [tag] = false ∧ inCode [tag] = false) :
    LeavesImages (tagged tag events) := by
  intro rest
  have none : tag.imageCount = 0 := by
    have noImage : tag.isImage = false := by simpa [inImage] using other.1
    rw [Tag.imageCount, noImage]
    rfl
  rw [tagged, List.cons_append, List.append_assoc, imagesPlain, none]
  exact (leaves _).trans (by rw [List.singleton_append, imagesPlain, none])

end LeavesImages

theorem leavesImages_rowEvents (definitions : Definitions) {tag : Tag} (cells : List Content)
    (other : inImage [tag] = false ∧ inCode [tag] = false) : LeavesImages (rowEvents definitions tag cells) :=
  .around (.flatMap fun cell => .around (imagesPlain_contentEvents definitions cell) ⟨rfl, rfl⟩) other

mutual

/-- A block breaks no rule for images. -/
theorem leavesImages_blockEvents (definitions : Definitions) (isTight : Bool) :
    (block : Block) → LeavesImages (block.events definitions isTight)
  | .paragraph content => by
    have content := imagesPlain_contentEvents definitions content
    unfold Block.events
    simp only
    split
    · exact content
    · exact .around content ⟨rfl, rfl⟩
  | .heading level content => .around (imagesPlain_contentEvents definitions content) ⟨rfl, rfl⟩
  | .code info body => by
    intro rest
    unfold Block.events
    split <;> rfl
  | .html markup => fun _ => rfl
  | .rule => fun _ => rfl
  | .table columns head rows =>
    .around ((leavesImages_rowEvents definitions head ⟨rfl, rfl⟩).append
      (.flatMap fun row => leavesImages_rowEvents definitions row ⟨rfl, rfl⟩)) ⟨rfl, rfl⟩
  | .task isChecked => fun _ => rfl
  | .container kind blocks =>
    .around (leavesImages_blocksEvents definitions _ blocks) (by cases kind <;> exact ⟨rfl, rfl⟩)

/-- Some blocks break no rule for images. -/
theorem leavesImages_blocksEvents (definitions : Definitions) (isTight : Bool) :
    (blocks : List Block) → LeavesImages (Block.eventsOf definitions isTight blocks)
  | [] => .nil
  | block :: rest =>
    (leavesImages_blockEvents definitions isTight block).append (leavesImages_blocksEvents definitions isTight rest)

end

/-- Joining texts changes nothing about images. -/
theorem imagesPlain_mergeText (images : Nat) : imagesPlain images (mergeText events) = imagesPlain images events := by
  induction events generalizing images with
  | nil => rfl
  | cons event rest ih =>
    have kept : imagesPlain images (event :: mergeText rest) = imagesPlain images (event :: rest) := by
      cases event <;> simp only [imagesPlain, ih]
    rw [← kept]
    change imagesPlain images (consMerged event (mergeText rest)) = _
    unfold consMerged
    split
    next a b others joined =>
      rw [joined]
      simp [imagesPlain, Event.isLeaf, Event.isReference]
    next => rfl

/-! ## Documents -/

theorem recorded_consMerged {event : Event} (proper : event.Proper m definitions)
    (recorded : Recorded m definitions n events) :
    Recorded m definitions (fun k => event.load m k + n k) (consMerged event events) := by
  unfold consMerged
  split
  next a b rest =>
    obtain ⟨first, others⟩ := List.forall_mem_cons.mp recorded.proper
    refine ⟨List.forall_mem_cons.mpr ⟨⟨?_, trivial⟩, others⟩, fun k => ?_⟩
    · rw [Event.Whole, String.toList_append]
      exact Marking.Tokened.append proper.1 first.1
    · have most := recorded.most k
      simp only [List.map_cons, List.sum_cons, Event.load, String.toList_append] at most ⊢
      rw [Marking.occurrences_append proper.1]
      omega
  next => exact (Recorded.single _ proper).append recorded

/-- Joining texts makes no tokens. -/
theorem recorded_mergeText (recorded : Recorded m definitions n events) :
    Recorded m definitions n (mergeText events) := by
  have merged : Recorded m definitions (fun k => (events.map (Event.load m k)).sum) (mergeText events) := by
    have proper := recorded.proper
    clear recorded
    induction events with
    | nil => exact .nil
    | cons event rest ih =>
      obtain ⟨first, others⟩ := List.forall_mem_cons.mp proper
      exact recorded_consMerged first (ih others)
  exact merged.mono recorded.most

/-- A genuine document is read into events and labels of footnotes. Together they hold its tokens, none of them
    more often. -/
theorem recorded_parse {text : String} (genuine : Genuine m text.toList) :
    let footnotes := (Outline.ofText text).definitions.footnotes
    Recorded m (Outline.ofText text).definitions
      (fun k => m.occurrences k text.toList - (footnotes.map (m.occurrences k)).sum) (parse text) ∧
      ∀ k, (footnotes.map (m.occurrences k)).sum ≤ m.occurrences k text.toList := by
  have reads := reads_ofText genuine
  refine ⟨recorded_mergeText ((recorded_eventsOf reads.links false _
    (Block.fitAll_reverse.mpr reads.blocks)).mono fun k => ?_), fun k => ?_⟩
  all_goals
    have most := reads.most k
    simp only [Outline.weight, Block.weightAll_reverse] at most ⊢
    omega

/-- If every token stands in a genuine document once, the label of a reference to a footnote holds none. It is
    also the label of the footnote. -/
theorem silent_label {text label : String} (genuine : Genuine m text.toList)
    (once : ∀ k, m.occurrences k text.toList ≤ 1) (member : .footnoteReference label ∈ parse text) :
    Source.Silent m label := by
  intro opening
  obtain ⟨recorded, within⟩ := recorded_parse genuine
  obtain ⟨whole, refers⟩ := recorded.proper _ member
  -- The folded label still holds a token, and it is the label of a footnote.
  have derived := Text.escapes_foldChar.derived (m := m) label.toList
  have folded := Text.escapes_foldChar.mem opening
  obtain ⟨k, some⟩ := Marking.exists_occurrences_pos (derived.tokened whole) folded
  have defined : 0 < ((Outline.ofText text).definitions.footnotes.map (m.occurrences k)).sum := by
    rw [List.sum_pos_iff_exists_pos_nat]
    exact ⟨_, List.mem_map_of_mem (List.contains_iff_mem.mp refers), some⟩
  have referred : 0 < ((parse text).map (Event.load m k)).sum := by
    rw [List.sum_pos_iff_exists_pos_nat]
    exact ⟨_, List.mem_map_of_mem member, Nat.lt_of_lt_of_le some (derived.occurrences_le whole)⟩
  have most := recorded.most k
  have one := once k
  omega

/-- All tags of a document are closed. -/
theorem nested_parse (text : String) : Nested [] (parse text) := by
  have nested := nests_blocksEvents (Outline.ofText text).definitions false (Outline.ofText text).blocks.reverse
    [] [] ⟨rfl, rfl⟩ rfl
  rw [List.append_nil] at nested
  exact nested_mergeText nested

/-- In the images of a document stand only pieces of a line, and no references. -/
theorem imagesPlain_parse (text : String) : imagesPlain 0 (parse text) = true := by
  have plain := leavesImages_blocksEvents (Outline.ofText text).definitions false
    (Outline.ofText text).blocks.reverse []
  rw [List.append_nil] at plain
  exact (imagesPlain_mergeText 0).trans plain

end Galley.Markdown
