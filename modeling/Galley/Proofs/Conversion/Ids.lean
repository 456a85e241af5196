import Galley.Proofs.Conversion.Anchors
import Galley.Proofs.Heading.Fresh

/-!
# Which ids a page gives twice

Headings get ids that no heading before has. Footnotes, the references to them and diagrams get ids with numbers in them,
and each of these is given once. But headings and the others do not know of each other.

* `Draft.Issued` — an id that was given to a heading, a reference or a diagram before;
* `anchors_step`, `written_anchors` — one event gives ids that were not given before;
* `Draft.Labels`, `Draft.Labels.step` — no id is given twice to headings, and none to the others;
* `ids_of_convert` — so an id that stands twice in a page is one of a heading and of something else;
* `heading_takes_footnote_id` — and there can be such ids.
-/

namespace Galley

open Galley.Diagram (NamedDiagram)
open Galley.Html (Anchor anchorsOf headingIds otherIds ids)
open Galley.Markdown (Event Tag)

/-- The ids of footnotes, of references to them and of diagrams. -/
inductive IsNumberedId : String → Prop where
  | item (number : Nat) : IsNumberedId (itemId number)
  | reference (number count : Nat) : IsNumberedId (referenceId number count)
  | diagram (number : Nat) : IsNumberedId (sequentialId number)

namespace Draft

variable {sources : Sources} {state : Draft} {event : Event} {stack stack' : List Tag} {keys keys' : List String}
  {anchor : Anchor} {id : String}

/-! ## References -/

/-- The id of a reference that was counted. -/
def IssuedReference (keys : List String) (id : String) : Prop :=
  ∃ key count, 1 ≤ count ∧ count ≤ keys.count key ∧ id = referenceId (keys.eraseDups.idxOf key + 1) count

theorem IssuedReference.mono (front : keys <+: keys') (issued : IssuedReference keys id) : IssuedReference keys' id := by
  obtain ⟨key, count, some, most, rfl⟩ := issued
  have member : key ∈ keys := List.count_pos_iff.mp (Nat.lt_of_lt_of_le some most)
  refine ⟨key, count, some, Nat.le_trans most (front.sublist.count_le key), ?_⟩
  rw [idxOf_eraseDups_of_starts front member]

theorem issuedReference_next (keys : List String) (key : String) : IssuedReference (keys ++ [key])
    (referenceId ((keys ++ [key]).eraseDups.idxOf key + 1) (keys.count key + 1)) :=
  ⟨key, keys.count key + 1, Nat.le_add_left 1 _, by simp [List.count_append], rfl⟩

/-- The next reference gets an id that no reference before has. -/
theorem not_issuedReference_next (keys : List String) (key : String) : ¬ IssuedReference keys
    (referenceId ((keys ++ [key]).eraseDups.idxOf key + 1) (keys.count key + 1)) := by
  rintro ⟨other, count, some, most, same⟩
  obtain ⟨place, rfl⟩ := referenceId_injective same
  have member : other ∈ keys := List.count_pos_iff.mp (Nat.lt_of_lt_of_le some most)
  rw [← idxOf_eraseDups_of_starts (List.prefix_append keys [key]) member, Nat.add_right_cancel_iff] at place
  have listed : key ∈ (keys ++ [key]).eraseDups := List.mem_eraseDups.mpr (by simp)
  -- footnotes with the same number are the same, and this one has not had so many references
  obtain rfl := (List.idxOf_inj listed).mp place
  exact absurd most (Nat.not_succ_le_self _)

/-! ## Ids that were given -/

/-- An id that was given before: to a heading, to a reference, or to a diagram. -/
def Issued (keys : List String) (state : Draft) : Anchor → Prop
  | ⟨true, id⟩ => state.used.uses id = true
  | ⟨false, id⟩ => IssuedReference keys id ∨ id ∈ state.diagrams.nodes.map NamedDiagram.id

/-- The ids in what a draft has written. -/
def anchors (state : Draft) : List Anchor := bodyOf Event.anchors state ++ asideOf Event.anchors state

/-- What one event gives out: ids of headings that were not in use and are now. -/
def NewLabels (before after : Heading.UsedIds) (labels : List Anchor) : Prop :=
  (∀ id, before.uses id = true → after.uses id = true) ∧
    (labels = [] ∨ ∃ id, labels = [⟨true, id⟩] ∧ before.uses id = false ∧ after.uses id = true)

theorem newLabels_nil (used : Heading.UsedIds) : NewLabels used used [] := ⟨fun _ => id, .inl rfl⟩

/-- The start of a heading gets an id. -/
theorem subperm_withId (id : String) (events : List Event) :
    ((changeLatest (withId? id) events).reverse.flatMap Event.anchors).Subperm
      (events.reverse.flatMap Event.anchors ++ [⟨true, id⟩]) := by
  induction events with
  | nil => exact List.nil_subperm
  | cons event rest ih =>
    unfold changeLatest
    split
    next changed made =>
      have given : changed.anchors = [⟨true, id⟩] := by
        unfold withId? at made
        split at made
        · rw [← Option.some.inj made]
          rfl
        · cases made
      rw [flatMap_push, flatMap_push, given, List.append_assoc]
      exact (List.Subperm.refl _).append (List.sublist_append_right _ _).subperm
    next =>
      rw [flatMap_push, flatMap_push]
      refine (ih.append (.refl _)).trans (List.Perm.subperm ?_)
      rw [List.append_assoc, List.append_assoc]
      exact List.perm_append_comm.append_left _

theorem anchors_endHeading (state : Draft) : ∃ labels, state.endHeading.anchors.Subperm (state.anchors ++ labels) ∧
    NewLabels state.used state.endHeading.used labels := by
  unfold endHeading
  split
  next => exact ⟨[], by rw [List.append_nil], newLabels_nil _⟩
  next text _ =>
    have after := Heading.UsedIds.uses_assign_after state.used text
    have before (id : String) : (state.used.assign text).1 = some id → state.used.uses id = false :=
      Heading.UsedIds.uses_assign_before
    generalize state.used.assign text = assigned at after before
    have kept (id : String) (inUse : state.used.uses id = true) : assigned.2.uses id = true := (after id).mpr (.inl inUse)
    simp only
    split
    next => exact ⟨[], by rw [List.append_nil]; exact .refl _, kept, .inl rfl⟩
    next id given =>
      refine ⟨[⟨true, id⟩], gathered_mapEvents_subperm { state with heading := none, used := assigned.2 }
        (subperm_withId id), ?_⟩
      rw [used_mapEvents]
      exact ⟨kept, .inr ⟨id, rfl, before id given, (after id).mpr (.inr given)⟩⟩

theorem anchors_asTask (state : Draft) :
    (state.mapEvents (changeLatest asTask?)).anchors.Subperm (state.anchors ++ []) := by
  refine gathered_mapEvents_subperm state fun events => ?_
  rw [flatMap_changeLatest fun event changed made => ?_]
  unfold asTask? at made
  split at made
  · rw [← Option.some.inj made]
    decide
  · cases made

/-- One event gives the id of a heading that ends, and those in what is written for it. -/
theorem anchors_step (sources : Sources) (state : Draft) (event : Event) : ∃ labels,
    (step sources state event).anchors.Subperm
      (state.anchors ++ (labels ++ (written? sources state event).elim [] Event.anchors)) ∧
    NewLabels state.used (step sources state event).used labels := by
  have reread {base state' : Draft} (same : SameEvents base state') : state'.anchors = base.anchors := by
    unfold anchors
    rw [same.gathered.1, same.gathered.2]
  rcases step_origin sources state event with ⟨quiet, used, others⟩ | ⟨written, base, made, origin, same, used⟩
  · refine ⟨[], ?_, used ▸ newLabels_nil _⟩
    rw [quiet, Option.elim_none, List.append_nil, List.append_nil]
    rcases others with same | ⟨label, -, same⟩ | ⟨label, -, same⟩
    · rw [reread same]
    · rw [reread same]
      exact (List.Subperm.refl _).append (List.sublist_append_right _ _).subperm
    · rw [reread same]
      obtain ⟨body, aside⟩ := gathered_endFootnote (f := Event.anchors) state
      unfold anchors
      rw [body]
      exact (List.Subperm.refl _).append aside
  · obtain ⟨labels, within, new⟩ : ∃ labels, base.anchors.Subperm (state.anchors ++ labels) ∧
        NewLabels state.used base.used labels := by
      rcases origin with rfl | rfl | rfl
      · exact ⟨[], by rw [List.append_nil], newLabels_nil _⟩
      · exact anchors_endHeading state
      · refine ⟨[], anchors_asTask state, ?_⟩
        rw [used_mapEvents]
        exact newLabels_nil _
    refine ⟨labels, ?_, used ▸ new⟩
    rw [reread same, made, Option.elim_some, ← List.append_assoc]
    have pushed : (base.push written).anchors.Subperm (base.anchors ++ written.anchors) :=
      gathered_mapEvents_subperm base fun events => by rw [flatMap_push]
    exact pushed.trans (within.append (.refl _))

/-- What is written for an event that is no reference gives no id, unless it ends code. -/
theorem anchors_writtenAs (own : event.isRaw = false) (unlabelled : event.Unlabelled)
    (other : ∀ label, event ≠ .footnoteReference label) : (writtenAs sources state event).anchors = [] := by
  cases event with
  | start tag =>
    cases tag with
    | heading level id =>
      cases id with
      | none => rfl
      | some id => exact unlabelled.elim
    | _ => rfl
  | html markup => cases own
  | inlineHtml markup => cases own
  | footnoteReference label => exact absurd rfl (other label)
  | _ => rfl

/-- A draft in which every id was given before, and none is given twice. `keys` are those of all references so far. -/
structure Labels (keys : List String) (stack : List Tag) (state : Draft) : Prop
    extends Stands Event.Anchored stack state where
  /-- The references are counted. -/
  references : state.references = tally keys
  /-- The diagrams are named in order. -/
  sequential : state.diagrams.Sequential
  /-- No id stands twice. -/
  nodup : state.anchors.Nodup
  /-- Every id was given before. -/
  issued : ∀ anchor ∈ state.anchors, Issued keys state anchor

/-- The ids in what is written for one event are new. -/
structure NewIds (keys keys' : List String) (state state' : Draft) (new : List Anchor) : Prop where
  /-- References go on being counted. -/
  front : keys <+: keys'
  references : state'.references = tally keys'
  /-- Diagrams go on being named in order. -/
  sequential : state'.diagrams.Sequential
  nodes : ∀ node ∈ state.diagrams.nodes, node ∈ state'.diagrams.nodes
  /-- None stands twice. -/
  nodup : new.Nodup
  /-- They are no ids of headings, and were not given before. -/
  fresh : ∀ anchor ∈ new, anchor.onHeading = false ∧ ¬ Issued keys state anchor ∧ Issued keys' state' anchor

/-- Where nothing is counted, nothing is given either. -/
theorem NewIds.nothing {state' : Draft} (labels : Labels keys stack state) (diagrams : state'.diagrams = state.diagrams)
    (references : state'.references = state.references) : NewIds keys keys state state' [] where
  front := List.prefix_rfl
  references := references.trans labels.references
  sequential := diagrams ▸ labels.sequential
  nodes := diagrams ▸ fun _ => id
  nodup := List.nodup_nil
  fresh _ absent := absurd absent List.not_mem_nil

/-- Code that ends gives the names of its diagrams. -/
theorem NewIds.ofCode {state' : Draft} {block : Code.CodeBlock} (noIds : sources.registry.GivesNoIds)
    (labels : Labels keys stack state) (diagrams : state'.diagrams = (rendered sources state block).2)
    (references : state'.references = state.references) :
    NewIds keys keys state state' (Event.html (rendered sources state block).1).anchors := by
  obtain ⟨new, nodes, carries⟩ := Code.Registry.exists_new_anchors noIds
    { block with code := sources.extraction.unmask block.code } state.diagrams
  have sequential : state'.diagrams.Sequential := diagrams ▸ labels.sequential.render _ _
  have whole : state'.diagrams.nodes = state.diagrams.nodes ++ new := diagrams ▸ nodes
  have distinct := sequential.nodup
  rw [whole, List.map_append, List.nodup_append] at distinct
  have given : (Event.html (rendered sources state block).1).anchors = new.map fun node => ⟨false, node.id⟩ :=
    (Markdown.anchors_of_carries carries).1
  rw [given]
  refine ⟨List.prefix_rfl, references.trans labels.references, sequential, ?_, ?_, fun anchor member => ?_⟩
  · exact fun node member => whole ▸ List.mem_append_left new member
  · have alike : new.map (fun node => (⟨false, node.id⟩ : Anchor)) = (new.map NamedDiagram.id).map (Anchor.mk false) := by
      simp
    rw [alike]
    exact distinct.2.1.map fun _ _ same => (Anchor.mk.inj same).2
  · obtain ⟨node, inNew, rfl⟩ := List.mem_map.mp member
    have listed : node ∈ state'.diagrams.nodes := whole ▸ List.mem_append_right _ inNew
    refine ⟨rfl, ?_, .inr (List.mem_map_of_mem listed)⟩
    rintro (⟨key, count, -, -, same⟩ | old)
    · obtain ⟨n, named⟩ := sequential.exists_id listed
      exact referenceId_ne_sequentialId _ _ n (same.symm.trans named)
    · exact distinct.2.2 _ old _ (List.mem_map_of_mem inNew) rfl

/-- A reference gives the next id of its footnote. -/
theorem NewIds.ofReference {state' : Draft} (labels : Labels keys stack state) (key : String)
    (diagrams : state'.diagrams = state.diagrams)
    (references : state'.references = (countReference key 1 state.references).1) :
    let counted := countReference key 1 state.references
    NewIds keys (keys ++ [key]) state state' (Event.inlineHtml (referenceMarkup counted.2.1 counted.2.2)).anchors := by
  intro counted
  have number : counted = _ := (congrArg (countReference key 1) labels.references).trans (countReference_tally keys key)
  rw [number, (Markdown.anchors_of_carries (carries_referenceMarkup _ _)).2]
  refine ⟨List.prefix_append keys [key], ?_, diagrams ▸ labels.sequential, diagrams ▸ fun _ => id,
    List.nodup_singleton _, fun anchor member => ?_⟩
  · exact references.trans (congrArg Prod.fst number)
  · rw [List.mem_singleton.mp member]
    refine ⟨rfl, ?_, .inl (issuedReference_next keys key)⟩
    rintro (issued | diagram)
    · exact not_issuedReference_next keys key issued
    · obtain ⟨node, listed, same⟩ := List.mem_map.mp diagram
      obtain ⟨n, named⟩ := labels.sequential.exists_id listed
      exact referenceId_ne_sequentialId _ _ n (same.symm.trans named)

/-- Only the end of code and a reference outside of code give ids. -/
theorem written_anchors (noIds : sources.registry.GivesNoIds) (labels : Labels keys stack state)
    (own : event.isRaw = false) (unlabelled : event.Unlabelled) : ∃ keys', NewIds keys keys' state
      (step sources state event) ((written? sources state event).elim [] Event.anchors) := by
  obtain ⟨diagrams, references⟩ := counts_step sources state event
  generalize step sources state event = state' at diagrams references ⊢
  cases reading : state.code with
  | some block =>
    rw [reading] at diagrams references
    unfold written?
    rw [reading]
    refine ⟨keys, ?_⟩
    cases event with
    | stop tag =>
      cases tag with
      | codeBlock info => exact .ofCode noIds labels diagrams references
      | _ => exact .nothing labels diagrams references
    | _ => exact .nothing labels diagrams references
  | none =>
    rw [reading] at diagrams references
    by_cases refers : ∃ label, event = .footnoteReference label
    · obtain ⟨label, rfl⟩ := refers
      unfold written?
      rw [reading]
      simp only [Option.elim_some, writtenAs]
      simp only [Option.isSome_none, Bool.false_eq_true, if_false, referencesAfter] at references
      split
      next defined =>
        rw [if_pos defined] at references
        exact ⟨_, .ofReference labels _ diagrams references⟩
      next unknown =>
        rw [if_neg unknown] at references
        exact ⟨keys, .nothing labels diagrams references⟩
    · have other (label : String) (same : event = .footnoteReference label) : False := refers ⟨label, same⟩
      have quiet : (written? sources state event).elim [] Event.anchors = [] := by
        rcases written?_outside sources event reading with none | some
        · rw [none]
          rfl
        · rw [some]
          exact anchors_writtenAs own unlabelled other
      rw [quiet]
      have same : referencesAfter sources state.references event = state.references := by
        unfold referencesAfter
        split
        next label => exact (other label rfl).elim
        next => rfl
      exact ⟨keys, .nothing labels diagrams (references.trans same)⟩

/-- What was given stays given. -/
theorem Issued.mono {state' : Draft} (front : keys <+: keys')
    (used : ∀ id, state.used.uses id = true → state'.used.uses id = true)
    (nodes : ∀ node ∈ state.diagrams.nodes, node ∈ state'.diagrams.nodes) (issued : Issued keys state anchor) :
    Issued keys' state' anchor := by
  obtain ⟨_ | _, id⟩ := anchor
  · rcases issued with reference | diagram
    · exact .inl (reference.mono front)
    · obtain ⟨node, listed, same⟩ := List.mem_map.mp diagram
      exact .inr (List.mem_map.mpr ⟨node, nodes node listed, same⟩)
  · exact used id issued

theorem nodup_of_subperm {front back : List Anchor} (within : front.Subperm back) (distinct : back.Nodup) : front.Nodup := by
  obtain ⟨part, perm, sublist⟩ := within
  exact perm.nodup_iff.mp (distinct.sublist sublist)

namespace Labels

theorem start : Labels [] [] (.start .sequential) where
  toStands := .start .sequential
  references := rfl
  sequential := .ofIds
  nodup := List.nodup_nil
  issued _ absent := absurd absent List.not_mem_nil

/-- One event gives no id that was given before. -/
theorem step (noIds : sources.registry.GivesNoIds) (labels : Labels keys stack state) (turns : Turns stack event stack')
    (own : event.isRaw = false) (graded : event.Graded) (unlabelled : event.Unlabelled) :
    ∃ keys', Labels keys' stack' (Draft.step sources state event) := by
  obtain ⟨given, within, used, headings⟩ := anchors_step sources state event
  obtain ⟨keys', new⟩ := written_anchors noIds labels own unlabelled
  generalize (written? sources state event).elim [] Event.anchors = written at within new
  -- headings and what is written get ids that were not given before, and not the same ones
  have fresh : ∀ anchor ∈ given ++ written, ¬ Issued keys state anchor ∧
      Issued keys' (Draft.step sources state event) anchor := by
    intro anchor member
    rcases List.mem_append.mp member with heading | other
    · rcases headings with rfl | ⟨id, rfl, before, after⟩
      · cases heading
      · obtain rfl := List.mem_singleton.mp heading
        exact ⟨by simp [Issued, before], after⟩
    · exact (new.fresh anchor other).2
  have distinct : (given ++ written).Nodup := by
    rcases headings with rfl | ⟨id, rfl, -, -⟩
    · exact new.nodup
    · refine List.nodup_cons.mpr ⟨fun member => ?_, new.nodup⟩
      cases (new.fresh _ member).1
  have whole : (state.anchors ++ (given ++ written)).Nodup :=
    List.nodup_append.mpr ⟨labels.nodup, distinct, fun old issued anchor member same =>
      (fresh anchor member).1 (same ▸ labels.issued old issued)⟩
  refine ⟨keys', ⟨?_, new.references, new.sequential, nodup_of_subperm within whole, fun anchor member => ?_⟩⟩
  · exact labels.toStands.step steady_anchored turns fun _ made =>
      anchored_written? noIds labels.toStands turns own graded made
  · rcases List.mem_append.mp (within.subset member) with old | added
    · exact (labels.issued anchor old).mono new.front used new.nodes
    · exact (fresh anchor added).2

theorem foldl {events : List Event} (sources : Sources) (noIds : sources.registry.GivesNoIds) (labels : Labels keys stack state)
    (nested : Markdown.Nested stack events) (own : ∀ event ∈ events, event.isRaw = false)
    (graded : ∀ event ∈ events, event.Graded) (unlabelled : ∀ event ∈ events, event.Unlabelled) :
    ∃ keys', Labels keys' [] (events.foldl (Draft.step sources) state) := by
  -- the draft is followed together with the tags that are open; all are closed in the end
  induction events generalizing state stack keys with
  | nil =>
    obtain rfl : stack = [] := nested
    exact ⟨keys, labels⟩
  | cons event rest ih =>
    obtain ⟨firstOwn, restOwn⟩ := List.forall_mem_cons.mp own
    obtain ⟨firstGraded, restGraded⟩ := List.forall_mem_cons.mp graded
    obtain ⟨firstUnlabelled, restUnlabelled⟩ := List.forall_mem_cons.mp unlabelled
    obtain ⟨stack', turns, inner⟩ := turns_of_nested nested
    obtain ⟨keys', next⟩ := labels.step noIds turns firstOwn firstGraded firstUnlabelled
    exact ih next inner restOwn restGraded restUnlabelled

/-- The items of footnotes add ids of their own. -/
theorem finish (labels : Labels keys [] state) :
    (state.finish.flatMap Event.anchors).Nodup ∧
      ∀ anchor ∈ state.finish.flatMap Event.anchors, anchor.onHeading = false → IsNumberedId anchor.id := by
  have distinct : (state.references.map Prod.fst).Nodup := by
    rw [labels.references, tally, List.map_map]
    exact (List.map_id _).symm ▸ nodup_eraseDups keys
  obtain ⟨notes, written, within⟩ := gathered_finish finds_anchors distinct
  rw [← List.map_eq_flatMap] at within
  have numbers : (List.range' 1 state.references.length).Nodup := List.nodup_range'
  generalize List.range' 1 state.references.length = range at within numbers
  have total : (state.finish.flatMap Event.anchors).Subperm
      (range.map (fun number => (⟨false, itemId number⟩ : Anchor)) ++ state.anchors) := by
    rw [written]
    refine ((List.Subperm.refl _).append within).trans (List.Perm.subperm ?_)
    unfold anchors
    rw [← List.append_assoc, ← List.append_assoc]
    exact List.perm_append_comm.append_right _
  have items : (range.map fun number => (⟨false, itemId number⟩ : Anchor)).Nodup :=
    numbers.map fun _ _ same => itemId_injective (Anchor.mk.inj same).2
  have whole : (range.map (fun number => (⟨false, itemId number⟩ : Anchor)) ++ state.anchors).Nodup := by
    refine List.nodup_append.mpr ⟨items, labels.nodup, ?_⟩
    rintro _ item anchor member rfl
    obtain ⟨number, -, rfl⟩ := List.mem_map.mp item
    rcases labels.issued _ member with ⟨key, count, -, -, same⟩ | diagram
    · exact itemId_ne_referenceId _ _ _ same
    · obtain ⟨node, listed, same⟩ := List.mem_map.mp diagram
      obtain ⟨n, named⟩ := labels.sequential.exists_id listed
      exact itemId_ne_sequentialId _ n (same.symm.trans named)
  refine ⟨nodup_of_subperm total whole, fun anchor member other => ?_⟩
  rcases List.mem_append.mp (total.subset member) with item | old
  · obtain ⟨number, -, rfl⟩ := List.mem_map.mp item
    exact .item number
  · obtain ⟨_ | _, id⟩ := anchor
    · rcases labels.issued _ old with ⟨key, count, -, -, same⟩ | diagram
      · rw [same]
        exact .reference _ _
      · obtain ⟨node, listed, rfl⟩ := List.mem_map.mp diagram
        obtain ⟨n, named⟩ := labels.sequential.exists_id listed
        rw [named]
        exact .diagram n
    · cases other

end Labels

end Draft

/-- In a page without markup written by hand headings get different ids, and so do footnotes, references and diagrams. No id
stands twice exactly if none of the first is one of the others. -/
theorem ids_of_convert (extraction : Source.Extraction) (registry : Code.Registry) (noIds : registry.GivesNoIds)
    (own : ∀ event ∈ Markdown.parse extraction.text, event.isRaw = false) :
    ∃ parts, Html.Part.ofMarkup? (convert extraction registry .sequential).html = some parts ∧
      (headingIds parts).Nodup ∧ (otherIds parts).Nodup ∧ (∀ id ∈ otherIds parts, IsNumberedId id) ∧
      ((ids parts).Nodup ↔ ∀ id ∈ headingIds parts, id ∉ otherIds parts) := by
  let sources : Sources := ⟨extraction, registry, definedFootnotes (Markdown.parse extraction.text)⟩
  have start : Draft.Labels [] [] (.start .sequential) := .start
  obtain ⟨keys, final⟩ := Draft.Labels.foldl sources noIds start (Markdown.nested_parse extraction.text) own
    (Markdown.graded_parse extraction.text) (Markdown.unlabelled_parse extraction.text)
  obtain ⟨distinct, numbered⟩ := final.finish
  obtain ⟨anchored, ends⟩ := final.lists.finish Draft.framed_anchored
  obtain ⟨parts, read, within⟩ := Markdown.exists_anchors_write anchored ends
  have given : (anchorsOf parts).Nodup := distinct.sublist within
  -- two ids that are both of headings, or both of others, only differ in the id itself
  have apart (kind : Bool) : (((anchorsOf parts).filter fun anchor => anchor.onHeading == kind).map Anchor.id).Nodup := by
    refine (given.filter _).map_on fun first member second member' same => ?_
    obtain ⟨-, ofKind⟩ := List.mem_filter.mp member
    obtain ⟨-, ofKind'⟩ := List.mem_filter.mp member'
    obtain ⟨kind', id⟩ := first
    obtain ⟨kind'', id'⟩ := second
    obtain rfl : id = id' := same
    obtain rfl : kind' = kind := beq_iff_eq.mp ofKind
    obtain rfl : kind'' = kind' := beq_iff_eq.mp ofKind'
    rfl
  have headings : (headingIds parts).Nodup := by simpa [headingIds] using apart true
  have others : (otherIds parts).Nodup := by simpa [otherIds] using apart false
  refine ⟨parts, read, headings, others, fun id member => ?_, ?_⟩
  · obtain ⟨anchor, listed, rfl⟩ := List.mem_map.mp member
    obtain ⟨inPage, other⟩ := List.mem_filter.mp listed
    exact numbered anchor (within.subset inPage) (by simpa using other)
  · rw [Html.nodup_ids_iff]
    exact ⟨fun all => all.2.2, fun differ => ⟨headings, others, differ⟩⟩

/-- Two headings with one text, a footnote and a diagram. -/
theorem ids_of_two_headings :
    let extraction := Source.Extraction.ofText "# a\n\n# a\n\nq[^a][^a]\n\n[^a]: x\n\n~~~mermaid\ny\n~~~\n"
    let registry := Code.Registry.ofDiagramTag usualDiagramLanguage
    registry.GivesNoIds ∧ (∀ event ∈ Markdown.parse extraction.text, event.isRaw = false) ∧
      ∃ parts, Html.Part.ofMarkup? (convert extraction registry .sequential).html = some parts ∧ (ids parts).Nodup ∧
        headingIds parts = ["a", "a-1"] ∧ otherIds parts = ["fnref-1", "fnref-1-2", "mermaid-1", "fn-1"] := by
  intro extraction registry
  have noIds : registry.GivesNoIds := Code.givesNoIds_ofDiagramTag usualDiagramLanguage
  have own : ∀ event ∈ Markdown.parse extraction.text, event.isRaw = false := by decide +kernel
  obtain ⟨parts, read, -, -, -, distinct⟩ := ids_of_convert extraction registry noIds own
  have shown : (Html.Part.ofMarkup? (convert extraction registry .sequential).html).map (fun parts =>
      (headingIds parts, otherIds parts)) =
        some (["a", "a-1"], ["fnref-1", "fnref-1-2", "mermaid-1", "fn-1"]) := by decide +kernel
  rw [read, Option.map_some, Option.some.injEq, Prod.mk.injEq] at shown
  obtain ⟨headings, others⟩ := shown
  refine ⟨noIds, own, parts, read, distinct.mpr ?_, headings, others⟩
  rw [headings, others]
  decide

/-- A heading whose text is the id of a footnote takes that id. -/
theorem heading_takes_footnote_id :
    let extraction := Source.Extraction.ofText "# fn-1\n\nx[^a]\n\n[^a]: y\n"
    let made := convert extraction (.ofDiagramTag usualDiagramLanguage) .sequential
    (∀ event ∈ Markdown.parse extraction.text, event.isRaw = false) ∧
      (Html.Part.ofMarkup? made.html).map ids = some ["fn-1", "fnref-1", "fn-1"] ∧
      ¬ ["fn-1", "fnref-1", "fn-1"].Nodup := by
  decide +kernel

end Galley
