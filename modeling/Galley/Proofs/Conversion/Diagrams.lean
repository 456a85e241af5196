import Galley.Proofs.Conversion.Gathering
import Galley.Proofs.Markdown.Drawn
import Galley.Proofs.Markdown.Levels
import Galley.Proofs.Markdown.Parsed

/-!
# The diagrams of a document and their places

A block of code that becomes a diagram is put down in a list, and its place is written where the block stands. The list
keeps the order of the document, but a footnote moves to the end, and one that nothing refers to is left out with the
places in it.

* `Event.isRaw` — markup that the author wrote by hand;
* `Draft.suits_written?` — what is written for one event suits the place where it stands;
* `Draft.bodyPlaces`, `Draft.asidePlaces` — the places in what a draft has written;
* `Draft.places_step` — one event adds the places of its diagrams;
* `diagramsInBody` — no footnote has a diagram in it;
* `places_match_diagrams` — every place has its diagram, and without diagrams in footnotes each diagram its place.
-/

namespace Galley

open Galley.Markdown (Event Tag imageAfterAll)
open Galley.Diagram (NamedDiagram)

variable {sources : Sources} {state : Draft} {event : Event} {stack stack' : List Tag}

/-- Whether an event is markup that the author wrote by hand. -/
def Markdown.Event.isRaw : Event → Bool
  | .html _ => true
  | .inlineHtml _ => true
  | _ => false

namespace Draft

/-! ## Where places stand -/

theorem steady_drawn : Steady Event.Drawn where
  heading depth level id id' _ := by cases depth <;> trivial
  task depth drawn := by
    cases depth with
    | none => exact ⟨rfl, Markdown.drawn_of_bare (by decide)⟩
    | some depth => exact drawn.elim

theorem bare_itemStart (number : Nat) : IsBare ("<li id=\"fn-" ++ toString number ++ "\">\n") := by
  have starts : IsBare "<li id=\"fn-" := by decide
  have ends : IsBare "\">\n" := by decide
  exact (starts.append (.number number)).append ends

theorem framed_drawn : Framed Event.Drawn where
  back number depth := by
    have starts : IsBare " <a href=\"#fnref-" := by decide
    have ends : IsBare "\" class=\"footnote-backref\">↩</a>" := by decide
    have whole : IsBare (" <a href=\"#fnref-" ++ toString number ++ "\" class=\"footnote-backref\">↩</a>") :=
      (starts.append (.number number)).append ends
    cases depth with
    | none => exact whole
    | some depth => trivial
  itemStart number := Markdown.drawn_of_bare (bare_itemStart number)
  itemEnd := Markdown.drawn_of_bare (by decide)
  sectionStart := Markdown.drawn_of_bare (by decide)
  sectionEnd := Markdown.drawn_of_bare (by decide)

theorem bare_referenceMarkup (number count : Nat) : IsBare (referenceMarkup number count) := by
  have starts : IsBare "<sup class=\"footnote-ref\"><a href=\"#fn-" := by decide
  have between : IsBare "\" id=\"" := by decide
  have name : IsBare "fnref-" := by decide
  have dash : IsBare "-" := by decide
  have tagEnds : IsBare "\">" := by decide
  have ends : IsBare "</a></sup>" := by decide
  have id : IsBare (if count == 1 then "fnref-" ++ toString number
      else "fnref-" ++ toString number ++ "-" ++ toString count) := by
    split
    · exact name.append (.number number)
    · exact ((name.append (.number number)).append dash).append (.number count)
  exact (((((starts.append (.number number)).append between).append id).append tagEnds).append
    (.number number)).append ends

/-- What is written for one event suits the place where it stands, if the markup of code and of references does, and all
that is no markup. No item stands in an image. -/
theorem suits_written? {suits : Option Nat → Event → Prop} (stands : Stands suits stack state)
    (turns : Turns stack event stack') (own : event.isRaw = false)
    (code : ∀ block, suits none (.html (rendered sources state block).1))
    (reference : ∀ number count depth, suits depth (.inlineHtml (referenceMarkup number count)))
    (others : ∀ depth other, other.isRaw = false → (other = .start .item → depth = none) →
      (event.Graded → other.Graded) → suits depth other) {written : Event}
    (made : written? sources state event = some written) : suits (depthOf stack) written := by
  unfold written? at made
  cases reading : state.code with
  | some block =>
    rw [reading] at made
    -- only the end of the code is written, and a block of code stands between tags
    rcases turns.inCode stands.stacked (stands.inside block reading) with ⟨info, rfl, rfl⟩ | ⟨t, rfl, rfl⟩
    · rw [← Option.some.inj made, depthOf_cons, depthOf_of_block stands.stacked rfl]
      exact code block
    · cases made
  | none =>
    rw [reading] at made
    cases event with
    | start tag =>
      cases tag with
      | codeBlock info => cases made
      | footnoteDefinition label => cases made
      | item =>
        have opened := turns.stacked stands.stacked
        rw [turns.of_start] at opened
        rw [← Option.some.inj made]
        exact others _ _ rfl (fun _ => depthOf_of_block opened rfl) id
      | _ =>
        rw [← Option.some.inj made]
        exact others _ _ rfl (fun same => by cases same) id
    | stop tag =>
      cases tag with
      | footnoteDefinition label => cases made
      | _ =>
        rw [← Option.some.inj made]
        exact others _ _ rfl (fun same => by cases same) id
    | html markup => cases own
    | inlineHtml markup => cases own
    | footnoteReference label =>
      rw [← Option.some.inj made]
      simp only [writtenAs]
      split
      · exact reference _ _ _
      · exact others _ _ rfl (fun same => by cases same) id
    | _ =>
      rw [← Option.some.inj made]
      exact others _ _ rfl (fun same => by cases same) id

/-- What is written for one event is drawn where it stands. -/
theorem drawn_written? (draws : sources.registry.DrawsNothing) (stands : Stands Event.Drawn stack state)
    (turns : Turns stack event stack') (own : event.isRaw = false) {written : Event}
    (made : written? sources state event = some written) : written.Drawn (depthOf stack) := by
  refine suits_written? stands turns own (fun block => ?_) (fun number count depth => ?_) ?_ made
  · obtain ⟨new, -, laid, -⟩ := Code.Registry.exists_drawn draws
      ⟨block.info, sources.extraction.unmask block.code⟩ state.diagrams
    exact Markdown.drawn_of_laid laid
  · cases depth with
    | none => exact bare_referenceMarkup _ _
    | some depth => trivial
  · intro depth other own item _
    cases other with
    | html markup => cases own
    | inlineHtml markup => cases own
    | start tag =>
      cases tag with
      | item =>
        rw [item rfl]
        trivial
      | _ => cases depth <;> trivial
    | _ => cases depth <;> trivial

/-! ## Places -/

/-- The places in the body of what a draft has written. -/
def bodyPlaces (state : Draft) : List Placeholder := state.out.reverse.flatMap Event.places

/-- The places in the footnote that a draft reads, and in those that it has read. -/
def asidePlaces (state : Draft) : List Placeholder :=
  (state.footnote.elim [] fun note => note.2.reverse.flatMap Event.places) ++
    state.definitions.flatMap fun definition => definition.2.flatMap Event.places

theorem SameEvents.places {state' : Draft} (same : SameEvents state state') :
    state'.bodyPlaces = state.bodyPlaces ∧ state'.asidePlaces = state.asidePlaces := same.gathered

/-- What is written goes to the footnote that is open, or else to the body. -/
theorem places_mapEvents {f : List Event → List Event} {new : List Placeholder} (state : Draft)
    (adds : ∀ events, (f events).reverse.flatMap Event.places = events.reverse.flatMap Event.places ++ new) :
    (state.mapEvents f).bodyPlaces = state.bodyPlaces ++ (if state.footnote.isSome then [] else new) ∧
    ((state.mapEvents f).asidePlaces).Perm (state.asidePlaces ++ (if state.footnote.isSome then new else [])) :=
  gathered_mapEvents state adds

/-- A heading or an item that gets its label keeps the places. -/
theorem places_relabelled {base : Draft}
    (origin : base = state ∨ base = state.endHeading ∨ base = state.mapEvents (changeLatest asTask?)) :
    base.bodyPlaces = state.bodyPlaces ∧ base.asidePlaces.Perm state.asidePlaces ∧
      base.footnote.isSome = state.footnote.isSome := by
  have relabelled (state : Draft) {change? : Event → Option Event}
      (same : ∀ event changed, change? event = some changed → changed.places = event.places) :
      (state.mapEvents (changeLatest change?)).bodyPlaces = state.bodyPlaces ∧
        (state.mapEvents (changeLatest change?)).asidePlaces.Perm state.asidePlaces ∧
        (state.mapEvents (changeLatest change?)).footnote.isSome = state.footnote.isSome := by
    simpa [isSome_mapEvents] using places_mapEvents state (flatMap_changeLatest same)
  rcases origin with rfl | rfl | rfl
  · exact ⟨rfl, .refl _, rfl⟩
  · unfold endHeading
    split
    next => exact ⟨rfl, .refl _, rfl⟩
    next text _ =>
      generalize state.used.assign text = assigned
      simp only
      split
      next => exact ⟨rfl, .refl _, rfl⟩
      next id _ =>
        refine relabelled { state with heading := none, used := assigned.2 } fun event changed made => ?_
        unfold withId? at made
        split at made
        · rw [← Option.some.inj made]
          rfl
        · cases made
  · refine relabelled state fun event changed made => ?_
    unfold asTask? at made
    split at made
    · rw [← Option.some.inj made]
      have item : IsBare "<li class=\"task-list-item\">" := by decide
      exact Markdown.places_of_laid item.laid
    · cases made

/-- The end of a footnote keeps its places aside, or leaves them out. -/
theorem places_endFootnote (state : Draft) :
    state.endFootnote.bodyPlaces = state.bodyPlaces ∧ state.endFootnote.asidePlaces.Subperm state.asidePlaces :=
  gathered_endFootnote state

/-- One event adds the places of what is written for it. -/
theorem places_step (sources : Sources) (state : Draft) (event : Event) {new : List Placeholder}
    (written : (written? sources state event).elim [] Event.places = new) :
    (step sources state event).bodyPlaces = state.bodyPlaces ++ (if state.footnote.isSome then [] else new) ∧
    (step sources state event).asidePlaces.Subperm
      (state.asidePlaces ++ (if state.footnote.isSome then new else [])) := by
  rcases step_cases sources state event with
    ⟨quiet, others⟩ | ⟨markup, base, made, origin, same⟩
  · rw [quiet] at written
    obtain rfl : [] = new := written
    simp only [ite_self, List.append_nil]
    rcases others with same | ⟨label, -, same⟩ | ⟨label, -, same⟩
    · rw [same.places.1, same.places.2]
      exact ⟨rfl, .refl _⟩
    · rw [same.places.1, same.places.2]
      exact ⟨rfl, (List.sublist_append_right _ _).subperm⟩
    · rw [same.places.1, same.places.2]
      exact places_endFootnote state
  · rw [made] at written
    obtain ⟨body, aside, inside⟩ := places_relabelled origin
    have pushed := places_mapEvents (f := (markup :: ·)) base fun events => show _ = _ ++ new by
      rw [flatMap_push, ← written]
      rfl
    rw [same.places.1, same.places.2]
    rw [body, inside] at pushed
    exact ⟨pushed.1, (pushed.2.trans (aside.append_right _)).subperm⟩

/-! ## Diagrams -/

theorem places_writtenAs (own : event.isRaw = false) : (writtenAs sources state event).places = [] := by
  cases event with
  | start tag => cases tag <;> rfl
  | html markup => cases own
  | footnoteReference label =>
    simp only [writtenAs]
    split <;> rfl
  | _ => rfl

/-- The diagrams that one event adds, and their places. Only a block of code that ends adds one. -/
theorem exists_new_diagrams (draws : sources.registry.DrawsNothing) (state : Draft) (own : event.isRaw = false) :
    ∃ new : List NamedDiagram,
      (step sources state event).diagrams.nodes = state.diagrams.nodes ++ new ∧
      (written? sources state event).elim [] Event.places = new.map NamedDiagram.place ∧
      ((∀ block ∈ state.code, sources.registry.makesDiagram block.info = false) → new = []) := by
  rw [(counts_step _ _ _).1]
  cases reading : state.code with
  | some block =>
    have nothing : ∃ new : List NamedDiagram, state.diagrams.nodes = state.diagrams.nodes ++ new ∧
        [] = new.map NamedDiagram.place ∧
        ((∀ other ∈ some block, sources.registry.makesDiagram other.info = false) → new = []) :=
      ⟨[], (List.append_nil _).symm, rfl, fun _ => rfl⟩
    unfold written?
    rw [reading]
    cases event with
    | stop tag =>
      cases tag with
      | codeBlock info =>
        obtain ⟨new, nodes, laid, absent⟩ := Code.Registry.exists_drawn draws
          ⟨block.info, sources.extraction.unmask block.code⟩ state.diagrams
        exact ⟨new, nodes, Markdown.places_of_laid laid, fun others => absent (others block rfl)⟩
      | _ => exact nothing
    | _ => exact nothing
  | none =>
    refine ⟨[], (List.append_nil _).symm, ?_, fun _ => rfl⟩
    rcases written?_outside sources event reading with quiet | made
    · rw [quiet]
      rfl
    · rw [made]
      exact places_writtenAs own

/-- A draft with a diagram for every place that was written, within the tags that are open. -/
structure Shows (stack : List Tag) (state : Draft) : Prop extends Stands Event.Drawn stack state where
  /-- Every place has its diagram. -/
  accounts : (state.bodyPlaces ++ state.asidePlaces).Subperm (state.diagrams.nodes.map NamedDiagram.place)
  /-- No footnote is referred to under two numbers. -/
  references : (state.references.map Prod.fst).Nodup

theorem nodup_references_step (sources : Sources) (event : Event) (distinct : (state.references.map Prod.fst).Nodup) :
    ((step sources state event).references.map Prod.fst).Nodup := by
  rw [(counts_step _ _ _).2]
  unfold referencesAfter
  split
  · exact distinct
  · split
    · split
      · exact Holds.nodup_countReference _ 1 distinct
      · exact distinct
    · exact distinct

theorem Shows.step (draws : sources.registry.DrawsNothing) (shows : Shows stack state)
    (turns : Turns stack event stack') (own : event.isRaw = false) :
    Shows stack' (Draft.step sources state event) where
  toStands := shows.toStands.step steady_drawn turns fun _ made => drawn_written? draws shows.toStands turns own made
  accounts := by
    obtain ⟨new, nodes, written, -⟩ := exists_new_diagrams draws state own
    obtain ⟨body, aside⟩ := places_step sources state event written
    rw [body, nodes, List.map_append]
    generalize new.map NamedDiagram.place = added at aside ⊢
    -- the new places go to the end of the body or to what is aside, and the list of diagrams does not tell which
    refine List.Subperm.trans (List.Subperm.append (.refl _) aside) ?_
    refine List.Subperm.trans (List.Perm.subperm ?_) (shows.accounts.append (.refl added))
    split
    · rw [List.append_nil, List.append_assoc]
    · rw [List.append_nil, List.append_assoc, List.append_assoc]
      exact List.perm_append_comm.append_left _
  references := nodup_references_step sources event shows.references

/-! ## Diagrams in the body -/

end Draft

/-- Whether a footnote is open after an event. -/
def Markdown.Event.inFootnote (inside : Bool) : Event → Bool
  | .start (.footnoteDefinition _) => true
  | .stop (.footnoteDefinition _) => false
  | _ => inside

/-- Whether a block of code begins that becomes a diagram. -/
def Markdown.Event.startsDiagram (registry : Code.Registry) : Event → Bool
  | .start (.codeBlock info) => registry.makesDiagram (info.getD "")
  | _ => false

/-- No diagram begins while a footnote is open. -/
def diagramsInBody (registry : Code.Registry) : (inside : Bool) → List Event → Bool
  | _, [] => true
  | inside, event :: rest =>
    !(inside && event.startsDiagram registry) && diagramsInBody registry (event.inFootnote inside) rest

namespace Draft

/-- Within code nothing happens to footnotes. -/
theorem inFootnote_of_code {inside : Bool} (stands : Stands Event.Drawn stack state) (turns : Turns stack event stack')
    {block : Code.CodeBlock} (reading : state.code = some block) : event.inFootnote inside = inside := by
  rcases turns.inCode stands.stacked (stands.inside block reading) with ⟨info, -, rfl⟩ | ⟨t, rfl, -⟩ <;> rfl

theorem isSome_footnote_step (sources : Sources) (stands : Stands Event.Drawn stack state)
    (turns : Turns stack event stack') :
    (step sources state event).footnote.isSome = event.inFootnote state.footnote.isSome := by
  have outside (inside : Bool) (changes : event.inFootnote inside ≠ inside) : state.code = none := by
    cases reading : state.code with
    | none => rfl
    | some block => exact absurd (inFootnote_of_code stands turns reading) changes
  by_cases start : ∃ label, event = .start (.footnoteDefinition label)
  · obtain ⟨label, rfl⟩ := start
    unfold step
    rw [outside false Bool.noConfusion]
    rfl
  by_cases stop : ∃ label, event = .stop (.footnoteDefinition label)
  · obtain ⟨label, rfl⟩ := stop
    unfold step
    rw [outside true Bool.noConfusion]
    exact congrArg Option.isSome (footnote_endFootnote state)
  have other : event.inFootnote state.footnote.isSome = state.footnote.isSome := by
    unfold Event.inFootnote
    split
    · exact absurd ⟨_, rfl⟩ start
    · exact absurd ⟨_, rfl⟩ stop
    · rfl
  rw [other]
  rcases step_cases sources state event with
    ⟨-, same | ⟨label, same, -⟩ | ⟨label, same, -⟩⟩ | ⟨written, base, -, origin, same⟩
  · rw [same.footnote]
  · exact absurd ⟨label, same⟩ start
  · exact absurd ⟨label, same⟩ stop
  · rw [same.footnote]
    exact (isSome_mapEvents _ _).trans (places_relabelled origin).2.2

/-- A draft whose diagrams all have their places in the body, in the same order. -/
structure InBody (registry : Code.Registry) (state : Draft) : Prop where
  /-- The places of the body. -/
  body : state.bodyPlaces = state.diagrams.nodes.map NamedDiagram.place
  /-- There are no others. -/
  aside : state.asidePlaces = []
  /-- In a footnote no diagram is being read. -/
  code : state.footnote.isSome = true → ∀ block ∈ state.code, registry.makesDiagram block.info = false

theorem InBody.step (draws : sources.registry.DrawsNothing) (stands : Stands Event.Drawn stack state)
    (inBody : InBody sources.registry state) (turns : Turns stack event stack') (own : event.isRaw = false)
    (apart : (state.footnote.isSome && event.startsDiagram sources.registry) = false) :
    InBody sources.registry (Draft.step sources state event) := by
  obtain ⟨new, nodes, written, absent⟩ := exists_new_diagrams draws state own
  obtain ⟨body, aside⟩ := places_step sources state event written
  have footnote := isSome_footnote_step sources stands turns
  have none (inside : state.footnote.isSome = true) : new = [] := absent (inBody.code inside)
  refine ⟨?_, ?_, fun inside block member => ?_⟩
  · rw [body, nodes, inBody.body, List.map_append]
    split
    next inside => rw [none inside]; rfl
    next => rfl
  · rw [inBody.aside] at aside
    refine List.subperm_nil.mp (aside.trans (List.Perm.subperm ?_))
    split
    next inside => rw [none inside]; exact .refl _
    next => exact .refl _
  · rw [footnote] at inside
    -- code that is read in a footnote began in it, since footnotes neither begin nor end within code
    rcases code_step member with ⟨earlier, reading, same⟩ | ⟨info, rfl, rfl⟩
    · rw [inFootnote_of_code stands turns reading] at inside
      rw [same]
      exact inBody.code inside earlier reading
    · change state.footnote.isSome = true at inside
      rwa [inside, Bool.true_and] at apart

/-! ## All events -/

/-- Nested events that the author did not write by hand. -/
theorem Shows.foldl {events : List Event} (sources : Sources) (draws : sources.registry.DrawsNothing) (shows : Shows stack state)
    (nested : Markdown.Nested stack events) (own : ∀ event ∈ events, event.isRaw = false) :
    Shows [] (events.foldl (Draft.step sources) state) ∧
      (InBody sources.registry state → diagramsInBody sources.registry state.footnote.isSome events = true →
        InBody sources.registry (events.foldl (Draft.step sources) state)) := by
  -- the draft is followed together with the tags that are open; all are closed in the end
  induction events generalizing state stack with
  | nil =>
    obtain rfl : stack = [] := nested
    exact ⟨shows, fun inBody _ => inBody⟩
  | cons event rest ih =>
    obtain ⟨first, others⟩ := List.forall_mem_cons.mp own
    obtain ⟨stack', turns, inner⟩ := turns_of_nested nested
    obtain ⟨final, finalInBody⟩ := ih (shows.step draws turns first) inner others
    refine ⟨final, fun inBody apart => ?_⟩
    unfold diagramsInBody at apart
    rw [Bool.and_eq_true, Bool.not_eq_true', ← isSome_footnote_step sources shows.toStands turns] at apart
    exact finalInBody (inBody.step draws shows.toStands turns first apart.1) apart.2

/-- What holds of the diagrams of every block that is rendered. -/
theorem diagrams_foldl {P : Code.PassDiagrams → Prop} (sources : Sources) (events : List Event)
    (keeps : ∀ block diagrams, P diagrams → P (sources.registry.render block diagrams).2) (start : P state.diagrams) :
    P (events.foldl (Draft.step sources) state).diagrams := by
  induction events generalizing state with
  | nil => exact start
  | cons event rest ih =>
    refine ih ?_
    rw [(counts_step _ _ _).1]
    split
    · exact keeps _ _ start
    · exact start

/-- Sequential names are given in the order of the blocks. -/
theorem sequential_draftOfEvents (extraction : Source.Extraction) (registry : Code.Registry) (events : List Event) :
    (draftOfEvents extraction registry .sequential events).diagrams.Sequential :=
  diagrams_foldl _ events (fun block _ before => before.render _ block) .ofIds

/-! ## Footnotes at the end -/

theorem finds_places : FindsItems Event.places fun _ => [] where
  itemStart number := Markdown.places_of_laid (bare_itemStart number).laid
  itemEnd := Markdown.places_of_laid (IsBare.laid (by decide))
  back _ := rfl
  paragraph := rfl
  sectionStart := Markdown.places_of_laid (IsBare.laid (by decide))
  sectionEnd := Markdown.places_of_laid (IsBare.laid (by decide))

theorem places_finish (shows : Shows [] state) :
    (state.finish.flatMap Event.places).Subperm (state.diagrams.nodes.map NamedDiagram.place) ∧
    ∀ registry, InBody registry state →
      state.finish.flatMap Event.places = state.diagrams.nodes.map NamedDiagram.place := by
  obtain ⟨notes, split, last⟩ := gathered_finish finds_places shows.references
  have noItems : (List.range' 1 state.references.length).flatMap (fun _ => ([] : List Placeholder)) = [] :=
    List.flatMap_eq_nil_iff.mpr fun _ _ => rfl
  rw [noItems, List.nil_append] at last
  have aside : notes.Subperm state.asidePlaces := last
  rw [split]
  refine ⟨(List.Subperm.append (.refl _) aside).trans shows.accounts, fun registry inBody => ?_⟩
  rw [inBody.aside] at aside
  rw [List.subperm_nil.mp aside, List.append_nil]
  exact inBody.body

end Draft

/-- There is nothing to escape in the names of diagrams. -/
theorem Code.Registry.plain_ids_render (registry : Code.Registry) (block : Code.CodeBlock)
    (diagrams : Code.PassDiagrams) (plain : ∀ node ∈ diagrams.nodes, Text.escapeAttribute node.id = node.id) :
    ∀ node ∈ (registry.render block diagrams).2.nodes, Text.escapeAttribute node.id = node.id := by
  unfold Code.Registry.render
  simp only
  cases (block.language?.bind registry.handler?).getD registry.fallback with
  | highlight => exact plain
  | diagram =>
    simp only [Code.Handler.render, Code.PassDiagrams.nodes, List.reverse_cons, List.forall_mem_append,
      List.forall_mem_singleton]
    exact ⟨plain, escapeAttribute_next diagrams.ids⟩

/-- In a document without markup written by hand every place has its diagram, and if no footnote has a diagram, each
diagram has its place, in the same order. Diagrams that are named in order have the first names. -/
theorem places_match_diagrams (extraction : Source.Extraction) (registry : Code.Registry)
    (draws : registry.DrawsNothing) (ids : Diagram.Naming)
    (own : ∀ event ∈ Markdown.parse extraction.text, event.isRaw = false) :
    let made := convert extraction registry ids
    let shown := (placesOf made.html.toList).map Placeholder.diagram
    shown.Subperm made.diagrams ∧
    (diagramsInBody registry false (Markdown.parse extraction.text) = true → shown = made.diagrams) ∧
    (ids = .sequential → (shown.map NamedDiagram.id).Nodup ∧
      ∀ i (within : i < made.diagrams.length), made.diagrams[i].id = "mermaid-" ++ toString (i + 1)) := by
  intro made shown
  let sources : Sources := ⟨extraction, registry, definedFootnotes (Markdown.parse extraction.text)⟩
  have shows : Draft.Shows [] (.start ids) := ⟨.start ids, List.nil_subperm, List.nodup_nil⟩
  have inBody : Draft.InBody registry (.start ids) := ⟨rfl, rfl, fun _ _ absent => by cases absent⟩
  obtain ⟨final, finalInBody⟩ := shows.foldl sources draws (Markdown.nested_parse extraction.text) own
  obtain ⟨some, all⟩ := Draft.places_finish final
  -- what is written has the places of its events
  have laid := (Markdown.laid_write (final.lists.finish Draft.framed_drawn).1).placesOf_eq
  rw [← laid] at some all
  have plain : ∀ node ∈ made.diagrams, Text.escapeAttribute node.id = node.id :=
    Draft.diagrams_foldl sources _ registry.plain_ids_render fun _ absent => absurd absent List.not_mem_nil
  have nodes : (made.diagrams.map NamedDiagram.place).map Placeholder.diagram = made.diagrams := by
    rw [List.map_map]
    exact (List.map_congr_left fun node member => diagram_place (plain node member)).trans (List.map_id _)
  have subperm : shown.Subperm made.diagrams := by
    obtain ⟨part, perm, sublist⟩ := some
    rw [← nodes]
    exact ⟨part.map Placeholder.diagram, perm.map _, sublist.map _⟩
  refine ⟨subperm, fun apart => ?_, ?_⟩
  · rw [← nodes]
    exact congrArg (List.map Placeholder.diagram) (all registry (finalInBody inBody apart))
  · rintro rfl
    have sequential := Draft.sequential_draftOfEvents extraction registry (Markdown.parse extraction.text)
    refine ⟨?_, fun i within => sequential.id_getElem within⟩
    obtain ⟨part, perm, sublist⟩ := subperm
    exact (perm.map NamedDiagram.id).nodup_iff.mp (sequential.nodup.sublist (sublist.map NamedDiagram.id))

/-- A diagram behind a footnote that is referred to. -/
theorem place_behind_footnote :
    let extraction := Source.Extraction.ofText "q[^a]\n\n[^a]: x\n\n~~~mermaid\ny\n~~~\n"
    let made := convert extraction (.ofDiagramTag usualDiagramLanguage) .sequential
    (∀ event ∈ Markdown.parse extraction.text, event.isRaw = false) ∧
      (placesOf made.html.toList).map Placeholder.diagram = made.diagrams ∧ made.diagrams = [⟨"mermaid-1", "y\n"⟩] := by
  intro extraction made
  have own : ∀ event ∈ Markdown.parse extraction.text, event.isRaw = false := by decide +kernel
  have apart : diagramsInBody (.ofDiagramTag usualDiagramLanguage) false (Markdown.parse extraction.text) = true := by
    decide +kernel
  have ordered := (places_match_diagrams extraction (.ofDiagramTag usualDiagramLanguage)
    (Code.drawsNothing_ofDiagramTag usualDiagramLanguage) .sequential own).2.1 apart
  exact ⟨own, ordered, by decide +kernel⟩

/-- A diagram in a footnote that nothing refers to has no place. -/
theorem diagram_without_place :
    let extraction := Source.Extraction.ofText "[^a]:\n    ~~~mermaid\n    x\n    ~~~\n"
    let made := convert extraction (.ofDiagramTag usualDiagramLanguage) .sequential
    (∀ event ∈ Markdown.parse extraction.text, event.isRaw = false) ∧
      made.html = "" ∧ made.diagrams = [⟨"mermaid-1", "x\n"⟩] := by
  decide +kernel

end Galley
