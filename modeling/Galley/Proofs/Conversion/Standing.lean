import Galley.Proofs.Conversion.Drafting
import Galley.Proofs.Markdown.Nested
import Galley.Proofs.Markdown.Placed

/-!
# Where events stand while a document is converted

A draft is read together with the tags that are open in the document. The events that have been written leave the
writer in the text of an image exactly when one of those tags is an image, so where an event will stand can be told in
advance.

* `Seats` — events that suit the places where they stand;
* `Draft.step_cases` — what one event does to the events that were written;
* `Draft.Turns` — what it does to the tags that are open;
* `Draft.Stands`, `Draft.Stands.step` — a draft whose events suit the places where they stand, and one more event;
* `Draft.Listed.finish` — footnotes are put at the end.
-/

namespace Galley

open Galley.Markdown (Event Tag AllFrom imageAfterAll allFrom_append imageAfterAll_append inImage inCode Nested)

variable {sources : Sources} {state : Draft} {event : Event} {depth : Option Nat} {stack : List Tag}

/-! ## Lists of events -/

/-- What suits events goes on to suit them when the converter gives them other labels. -/
structure Steady (suits : Option Nat → Event → Prop) : Prop where
  /-- A heading gets another id. -/
  heading : ∀ depth level id id', suits depth (.start (.heading level id)) → suits depth (.start (.heading level id'))
  /-- The item of a box gets a class. An item does not stand in an image. -/
  task : ∀ depth, suits depth (.start .item) →
    depth = none ∧ suits none (.html "<li class=\"task-list-item\">")

/-- Events that suit the places where they stand, with as many tags open in an image after them. -/
def Seats (suits : Option Nat → Event → Prop) (events : List Event) (depth : Option Nat) : Prop :=
  AllFrom suits none events ∧ imageAfterAll none events = depth

namespace Seats

variable {suits : Option Nat → Event → Prop} {events front back : List Event}

theorem append (first : Seats suits front none) (second : Seats suits back depth) :
    Seats suits (front ++ back) depth where
  left := allFrom_append.mpr ⟨first.1, first.2.symm ▸ second.1⟩
  right := by rw [imageAfterAll_append, first.2, second.2]

/-- The latest event comes first. -/
theorem cons_iff : Seats suits (event :: events).reverse depth ↔
    ∃ depth', Seats suits events.reverse depth' ∧ suits depth' event ∧ event.imageAfter depth' = depth := by
  rw [List.reverse_cons, Seats, allFrom_append, imageAfterAll_append]
  constructor
  · rintro ⟨⟨placed, last, -⟩, after⟩
    exact ⟨_, ⟨placed, rfl⟩, last, after⟩
  · rintro ⟨depth', ⟨placed, rfl⟩, last, after⟩
    exact ⟨⟨placed, last, trivial⟩, after⟩

/-- A change of one event that leaves it where it is. -/
theorem changeLatest {change? : Event → Option Event}
    (same : ∀ event changed depth, change? event = some changed → suits depth event →
      suits depth changed ∧ changed.imageAfter depth = event.imageAfter depth)
    (seats : Seats suits events.reverse depth) : Seats suits (Draft.changeLatest change? events).reverse depth := by
  induction events generalizing depth with
  | nil => exact seats
  | cons event rest ih =>
    obtain ⟨depth', inner, placed, after⟩ := cons_iff.mp seats
    unfold Draft.changeLatest
    split
    next changed made =>
      -- what comes behind the changed event stands where it stood
      obtain ⟨placed', after'⟩ := same event changed depth' made placed
      exact cons_iff.mpr ⟨depth', inner, placed', after'.trans after⟩
    next => exact cons_iff.mpr ⟨depth', ih inner, placed, after⟩

/-- Something put in that fits everywhere. -/
theorem insertBack? {back : Event} {found : List Event}
    (anywhere : ∀ depth, suits depth back ∧ back.imageAfter depth = depth)
    (seats : Seats suits events.reverse depth) (made : Draft.insertBack? back events = some found) :
    Seats suits found.reverse depth := by
  induction events generalizing depth found with
  | nil => cases made
  | cons event rest ih =>
    obtain ⟨depth', inner, placed, after⟩ := cons_iff.mp seats
    unfold Draft.insertBack? at made
    split at made
    next => cases made
    next others same =>
      -- in front of the end of a paragraph
      obtain ⟨rfl, rfl⟩ := List.cons.inj same
      rw [← Option.some.inj made]
      exact cons_iff.mpr ⟨depth', cons_iff.mpr ⟨depth', inner, anywhere depth'⟩, placed, after⟩
    next other others _ same =>
      obtain ⟨rfl, rfl⟩ := List.cons.inj same
      obtain ⟨tail, deeper, rfl⟩ := Option.map_eq_some_iff.mp made
      exact cons_iff.mpr ⟨depth', ih inner deeper, placed, after⟩

/-- Markup between tags. -/
theorem html {markup : String} (suited : suits none (.html markup)) : Seats suits [.html markup] none :=
  ⟨⟨suited, trivial⟩, rfl⟩

end Seats

/-! ## Tags that are open -/

/-- How many tags are open in an image, if one of the tags that are open is an image. -/
def depthOf : List Tag → Option Nat
  | [] => none
  | tag :: outer => (Event.start tag).imageAfter (depthOf outer)

theorem depthOf_cons (tag : Tag) (outer : List Tag) :
    depthOf (tag :: outer) = (Event.start tag).imageAfter (depthOf outer) := rfl

/-- How many images are open. -/
def images (stack : List Tag) : Nat := stack.countP Tag.isImage

theorem imageAfter_stop (tag other : Tag) (outer : List Tag) :
    (Event.stop other).imageAfter (depthOf (tag :: outer)) = depthOf outer := by
  change (Event.stop other).imageAfter ((Event.start tag).imageAfter (depthOf outer)) = depthOf outer
  cases depthOf outer with
  | none => cases tag <;> rfl
  | some depth => rfl

theorem depthOf_eq_none : depthOf stack = none ↔ inImage stack = false := by
  -- a tag is counted if it is an image or stands in one
  induction stack with
  | nil => simp [depthOf, inImage]
  | cons tag outer ih =>
    unfold depthOf
    cases inner : depthOf outer with
    | none =>
      have outside := ih.mp inner
      unfold inImage at outside ⊢
      cases tag <;> simp [Event.imageAfter, Tag.isImage, outside]
    | some depth =>
      have inside : inImage outer = true := by
        rw [← Bool.not_eq_false]
        exact fun outside => by simp [ih.mpr outside] at inner
      unfold inImage at inside ⊢
      simp [Event.imageAfter, inside]

theorem images_pos : 0 < images stack ↔ inImage stack = true := by
  simp [images, inImage, List.countP_pos_iff]

namespace Draft

/-- The events of a draft are seated: those that are being written, with as many tags open in an image after
    them, and all others, which end between tags. -/
structure Listed (suits : Option Nat → Event → Prop) (depth : Option Nat) (state : Draft) : Prop where
  /-- The events that are being written. -/
  current : Seats suits (state.footnote.elim state.out Prod.snd).reverse depth
  /-- What was written before a footnote. -/
  out : ∀ footnote ∈ state.footnote, Seats suits state.out.reverse none
  /-- The footnotes that have been read. -/
  definitions : ∀ definition ∈ state.definitions, Seats suits definition.2 none

namespace Listed

variable {suits : Option Nat → Event → Prop}

/-- Only the lists of events count. -/
theorem of_same {state' : Draft} (listed : Listed suits depth state) (footnote : state'.footnote = state.footnote)
    (out : state'.out = state.out) (definitions : state'.definitions = state.definitions) :
    Listed suits depth state' where
  current := by
    rw [footnote, out]
    exact listed.current
  out := by
    rw [footnote, out]
    exact listed.out
  definitions := definitions ▸ listed.definitions

/-- A change of the events that are being written. -/
theorem mapEvents {f : List Event → List Event} {depth' : Option Nat} (listed : Listed suits depth state)
    (change : ∀ events, Seats suits events.reverse depth → Seats suits (f events).reverse depth') :
    Listed suits depth' (state.mapEvents f) := by
  have current := listed.current
  have out := listed.out
  unfold Draft.mapEvents
  split
  next key events reading =>
    rw [reading] at current out
    exact ⟨change events current, fun _ _ => out _ rfl, listed.definitions⟩
  next none =>
    rw [none] at current
    refine ⟨?_, fun footnote absent => ?_, listed.definitions⟩
    · simp only [none, Option.elim_none]
      exact change state.out current
    · simp only [none] at absent
      cases absent

theorem push (listed : Listed suits depth state) (placed : suits depth event) :
    Listed suits (event.imageAfter depth) (state.push event) :=
  listed.mapEvents fun _ seats => Seats.cons_iff.mpr ⟨depth, seats, placed, rfl⟩

theorem endHeading (steady : Steady suits) (listed : Listed suits depth state) :
    Listed suits depth state.endHeading := by
  unfold Draft.endHeading
  split
  next => exact listed
  next text _ =>
    generalize state.used.assign text = assigned
    have closed : Listed suits depth { state with heading := none, used := assigned.2 } :=
      listed.of_same rfl rfl rfl
    simp only
    split
    next => exact closed
    next id _ =>
      refine closed.mapEvents fun events seats => seats.changeLatest fun event changed depth made placed => ?_
      unfold withId? at made
      split at made
      · rw [← Option.some.inj made]
        exact ⟨steady.heading _ _ _ _ placed, by cases depth <;> rfl⟩
      · cases made

theorem asTask (steady : Steady suits) (listed : Listed suits depth state) :
    Listed suits depth (state.mapEvents (Draft.changeLatest asTask?)) := by
  refine listed.mapEvents fun events seats => seats.changeLatest fun event changed depth made placed => ?_
  unfold asTask? at made
  split at made
  · rw [← Option.some.inj made]
    obtain ⟨rfl, suited⟩ := steady.task depth placed
    exact ⟨suited, rfl⟩
  · cases made

theorem openFootnote (listed : Listed suits none state) (key : String) :
    Listed suits none { state with footnote := some (key, []) } := by
  refine ⟨⟨trivial, rfl⟩, fun _ _ => ?_, listed.definitions⟩
  cases reading : state.footnote with
  | none =>
    have current := listed.current
    rw [reading] at current
    exact current
  | some footnote => exact listed.out footnote reading

theorem endFootnote (listed : Listed suits none state) : Listed suits none state.endFootnote := by
  unfold Draft.endFootnote
  split
  next => exact listed
  next key events reading =>
    have current := listed.current
    have out := listed.out _ reading
    rw [reading] at current
    simp only
    split
    -- only the first footnote of a name is kept
    · exact ⟨out, fun _ absent => (by cases absent), listed.definitions⟩
    · refine ⟨out, fun _ absent => (by cases absent), fun definition member => ?_⟩
      rcases List.mem_append.mp member with old | new
      · exact listed.definitions definition old
      · rw [List.mem_singleton.mp new]
        exact current

end Listed

/-! ## What is not written -/

/-- A draft that reads the same code, has as many images open, and has the same diagrams and references. -/
structure Frames (state state' : Draft) : Prop where
  /-- The code. -/
  code : state'.code = state.code
  /-- The images. -/
  images : state'.imageDepth = state.imageDepth
  /-- The diagrams. -/
  diagrams : state'.diagrams = state.diagrams
  /-- The references. -/
  references : state'.references = state.references

theorem Frames.trans {state' state'' : Draft} (first : Frames state state') (second : Frames state' state'') :
    Frames state state'' where
  code := second.code.trans first.code
  images := second.images.trans first.images
  diagrams := second.diagrams.trans first.diagrams
  references := second.references.trans first.references

theorem frames_mapEvents (state : Draft) (f : List Event → List Event) : Frames state (state.mapEvents f) := by
  unfold Draft.mapEvents
  split <;> exact ⟨rfl, rfl, rfl, rfl⟩

theorem isSome_mapEvents (state : Draft) (f : List Event → List Event) :
    (state.mapEvents f).footnote.isSome = state.footnote.isSome := by
  unfold Draft.mapEvents
  split
  next reading => rw [reading]; rfl
  next => rfl

theorem frames_endHeading (state : Draft) : Frames state state.endHeading := by
  unfold Draft.endHeading
  split
  next => exact ⟨rfl, rfl, rfl, rfl⟩
  next text _ =>
    generalize state.used.assign text = assigned
    have closed : Frames state { state with heading := none, used := assigned.2 } := ⟨rfl, rfl, rfl, rfl⟩
    simp only
    split
    next => exact closed
    next => exact closed.trans (frames_mapEvents _ _)

theorem frames_endFootnote (state : Draft) : Frames state state.endFootnote := by
  unfold Draft.endFootnote
  split
  next => exact ⟨rfl, rfl, rfl, rfl⟩
  next =>
    simp only
    split <;> exact ⟨rfl, rfl, rfl, rfl⟩

/-- How many images are open after an event. -/
def imagesAfter (images : Nat) : Event → Nat
  | .start (.image _) => images + 1
  | .stop (.image _) => images - 1
  | _ => images

/-- The references after an event. -/
def referencesAfter (sources : Sources) (references : List (String × Nat)) : Event → List (String × Nat)
  | .footnoteReference label =>
    if sources.defined.contains (footnoteKey label) then (countReference (footnoteKey label) 1 references).1
    else references
  | _ => references

/-- Outside of code, only the start of a block begins code, and only the tags of images and references count as
such. -/
theorem frames_stepOutside (sources : Sources) (state : Draft) (other : ∀ info, event ≠ .start (.codeBlock info)) :
    Frames
      { state with
        imageDepth := imagesAfter state.imageDepth event
        references := referencesAfter sources state.references event }
      (state.stepOutside sources event) := by
  have pushed {base state' : Draft} (written : Event) (frames : Frames base state') :
      Frames base (state'.push written) := frames.trans (frames_mapEvents _ _)
  cases event with
  | start tag =>
    cases tag with
    | codeBlock info => exact absurd rfl (other info)
    | footnoteDefinition label => exact ⟨rfl, rfl, rfl, rfl⟩
    | heading level id =>
      have frames := frames_mapEvents state (.start (.heading level id) :: ·)
      exact ⟨frames.code, frames.images, frames.diagrams, frames.references⟩
    | _ => exact pushed _ ⟨rfl, rfl, rfl, rfl⟩
  | stop tag =>
    cases tag with
    | heading level id => exact pushed _ (frames_endHeading state)
    | footnoteDefinition label => exact frames_endFootnote state
    | _ => exact pushed _ ⟨rfl, rfl, rfl, rfl⟩
  | footnoteReference label =>
    simp only [stepOutside, reference, referencesAfter]
    split <;> exact pushed _ ⟨rfl, rfl, rfl, rfl⟩
  | taskMarker isChecked => exact pushed _ (frames_mapEvents state _)
  | _ => exact pushed _ ⟨rfl, rfl, rfl, rfl⟩

theorem footnote_endFootnote (state : Draft) : state.endFootnote.footnote = none := by
  unfold Draft.endFootnote
  split
  next none => exact none
  next =>
    simp only
    split <;> rfl

/-- The code that is being read began with its info text. -/
theorem code_step {block : Code.CodeBlock} (member : block ∈ (step sources state event).code) :
    (∃ earlier ∈ state.code, block.info = earlier.info) ∨
      ∃ info, event = .start (.codeBlock info) ∧ block = ⟨info.getD "", ""⟩ := by
  unfold step at member
  cases reading : state.code with
  | some earlier =>
    rw [reading] at member
    refine .inl ⟨earlier, rfl, ?_⟩
    split at member
    next absent => cases absent
    next other t same =>
      obtain rfl := Option.some.inj same
      rw [← Option.some.inj member]
    next other info same =>
      cases (frames_mapEvents _ _).code.symm.trans member
    next =>
      rw [reading] at member
      rw [← Option.some.inj member]
  | none =>
    rw [reading] at member
    by_cases code : ∃ info, event = .start (.codeBlock info)
    · obtain ⟨info, rfl⟩ := code
      exact .inr ⟨info, rfl, (Option.some.inj member).symm⟩
    · have frames := frames_stepOutside sources state fun info same => code ⟨info, same⟩
      cases (frames.code.trans reading).symm.trans member

/-! ## What one event writes -/

/-- What an event outside of code is written as. -/
def writtenAs (sources : Sources) (state : Draft) : Event → Event
  | .start (.link mailbox target) => .start (.link mailbox (unmaskTarget sources target))
  | .start (.image target) => .start (.image (unmaskTarget sources target))
  | .text t => .text (Shortcode.expand (if 0 < state.imageDepth then sources.extraction.unmask t else t))
  | .code t => .code (sources.extraction.unmask t)
  | .footnoteReference label =>
    if sources.defined.contains (footnoteKey label) then
      let counted := countReference (footnoteKey label) 1 state.references
      .inlineHtml (referenceMarkup counted.2.1 counted.2.2)
    else .text ("[^" ++ label ++ "]")
  | event => event

/-- What is made of a block of code that ends. -/
def rendered (sources : Sources) (state : Draft) (block : Code.CodeBlock) : String × Code.PassDiagrams :=
  sources.registry.render { block with code := sources.extraction.unmask block.code } state.diagrams

/-- The diagrams and the references after an event: only a block of code that ends adds diagrams, and only a reference
outside of code counts as one. -/
theorem counts_step (sources : Sources) (state : Draft) (event : Event) :
    ((step sources state event).diagrams =
      match state.code, event with
      | some block, .stop (.codeBlock _) => (rendered sources state block).2
      | _, _ => state.diagrams) ∧
    (step sources state event).references =
      if state.code.isSome then state.references else referencesAfter sources state.references event := by
  unfold step
  cases reading : state.code with
  | some block =>
    cases event with
    | stop tag =>
      cases tag with
      | codeBlock info =>
        have frames := frames_mapEvents { state with code := none, diagrams := (rendered sources state block).2 }
          (.html (rendered sources state block).1 :: ·)
        exact ⟨frames.diagrams, frames.references⟩
      | _ => exact ⟨rfl, rfl⟩
    | _ => exact ⟨rfl, rfl⟩
  | none =>
    by_cases code : ∃ info, event = .start (.codeBlock info)
    · obtain ⟨info, rfl⟩ := code
      exact ⟨rfl, rfl⟩
    · have frames := frames_stepOutside sources state fun info same => code ⟨info, same⟩
      exact ⟨frames.diagrams, frames.references⟩

/-- The event that is written for one of a document, if one is. -/
def written? (sources : Sources) (state : Draft) (event : Event) : Option Event :=
  match state.code, event with
  | some block, .stop (.codeBlock _) => some (.html (rendered sources state block).1)
  | some _, _ => none
  | none, .start (.codeBlock _) => none
  | none, .start (.footnoteDefinition _) => none
  | none, .stop (.footnoteDefinition _) => none
  | none, event => some (writtenAs sources state event)

theorem written?_outside (sources : Sources) (event : Event) (outside : state.code = none) :
    written? sources state event = none ∨ written? sources state event = some (writtenAs sources state event) := by
  unfold written?
  rw [outside]
  cases event with
  | start tag => cases tag <;> first | exact .inl rfl | exact .inr rfl
  | stop tag => cases tag <;> first | exact .inl rfl | exact .inr rfl
  | _ => exact .inr rfl

/-- A draft with the events of another one. -/
structure SameEvents (state state' : Draft) : Prop where
  /-- The footnote that is being read. -/
  footnote : state'.footnote = state.footnote
  /-- The events of the body. -/
  out : state'.out = state.out
  /-- The footnotes that have been read. -/
  definitions : state'.definitions = state.definitions

theorem SameEvents.refl (state : Draft) : SameEvents state state := ⟨rfl, rfl, rfl⟩

theorem SameEvents.mapEvents {state state' : Draft} (same : SameEvents state state') (f : List Event → List Event) :
    SameEvents (state.mapEvents f) (state'.mapEvents f) := by
  obtain ⟨footnote, out, definitions⟩ := same
  unfold Draft.mapEvents
  rw [footnote]
  split
  next => exact ⟨rfl, out, definitions⟩
  next => exact ⟨rfl, congrArg f out, definitions⟩

theorem used_endFootnote (state : Draft) : state.endFootnote.used = state.used := by
  unfold Draft.endFootnote
  split
  next => rfl
  next =>
    simp only
    split <;> rfl

theorem used_mapEvents (state : Draft) (f : List Event → List Event) : (state.mapEvents f).used = state.used := by
  unfold Draft.mapEvents
  split <;> rfl

/-- What one event does to the events, and to the ids of headings in use: those only change with a heading that ends. -/
theorem step_origin (sources : Sources) (state : Draft) (event : Event) :
    (written? sources state event = none ∧ (step sources state event).used = state.used ∧
      (SameEvents state (step sources state event) ∨
      (∃ label, event = .start (.footnoteDefinition label) ∧
        SameEvents { state with footnote := some (footnoteKey label, []) } (step sources state event)) ∨
      ∃ label, event = .stop (.footnoteDefinition label) ∧
        SameEvents state.endFootnote (step sources state event))) ∨
    ∃ written base, written? sources state event = some written ∧
      (base = state ∨ base = state.endHeading ∨ base = state.mapEvents (changeLatest asTask?)) ∧
      SameEvents (base.push written) (step sources state event) ∧ (step sources state event).used = base.used := by
  have same := SameEvents.refl state
  have pushed (state' : Draft) (written : Event) (same : SameEvents state state') (used : state'.used = state.used) :
      ∃ written' base, some written = some written' ∧
        (base = state ∨ base = state.endHeading ∨ base = state.mapEvents (changeLatest asTask?)) ∧
        SameEvents (base.push written') (state'.push written) ∧ (state'.push written).used = base.used :=
    ⟨written, state, rfl, .inl rfl, same.mapEvents _, (used_mapEvents _ _).trans used⟩
  unfold written? step
  cases reading : state.code with
  | some block =>
    -- text is kept for the end of the code, and nothing else counts before it
    cases event with
    | stop tag =>
      cases tag with
      | codeBlock info =>
        exact .inr (pushed { state with code := none, diagrams := _ } _ ⟨rfl, rfl, rfl⟩ rfl)
      | _ => exact .inl ⟨rfl, rfl, .inl same⟩
    | text t => exact .inl ⟨rfl, rfl, .inl ⟨rfl, rfl, rfl⟩⟩
    | _ => exact .inl ⟨rfl, rfl, .inl same⟩
  | none =>
    -- all that is not written begins code, or begins or ends a footnote
    simp only
    cases event with
    | start tag =>
      cases tag with
      | codeBlock info => exact .inl ⟨rfl, rfl, .inl ⟨rfl, rfl, rfl⟩⟩
      | footnoteDefinition label => exact .inl ⟨rfl, rfl, .inr (.inl ⟨label, rfl, rfl, rfl, rfl⟩)⟩
      | heading level id =>
        obtain ⟨footnote, out, definitions⟩ := SameEvents.refl (state.push (.start (.heading level id)))
        exact .inr ⟨_, state, rfl, .inl rfl, ⟨footnote, out, definitions⟩, used_mapEvents _ _⟩
      | image target =>
        exact .inr (pushed { state with imageDepth := state.imageDepth + 1 } _ ⟨rfl, rfl, rfl⟩ rfl)
      | _ => exact .inr (pushed state _ same rfl)
    | stop tag =>
      cases tag with
      | footnoteDefinition label => exact .inl ⟨rfl, used_endFootnote state, .inr (.inr ⟨label, rfl, .refl _⟩)⟩
      | heading level id => exact .inr ⟨_, _, rfl, .inr (.inl rfl), .refl _, used_mapEvents _ _⟩
      | image target =>
        exact .inr (pushed { state with imageDepth := state.imageDepth - 1 } _ ⟨rfl, rfl, rfl⟩ rfl)
      | _ => exact .inr (pushed state _ same rfl)
    | taskMarker isChecked => exact .inr ⟨_, _, rfl, .inr (.inr rfl), .refl _, used_mapEvents _ _⟩
    | footnoteReference label =>
      refine .inr ?_
      simp only [stepOutside, reference, writtenAs]
      split
      · exact pushed { state with references := _ } _ ⟨rfl, rfl, rfl⟩ rfl
      · exact pushed state _ same rfl
    | text t => exact .inr (pushed { state with heading := _ } _ ⟨rfl, rfl, rfl⟩ rfl)
    | code t => exact .inr (pushed { state with heading := _ } _ ⟨rfl, rfl, rfl⟩ rfl)
    | _ => exact .inr (pushed state _ same rfl)

/-- One event writes one event, or it writes nothing and may begin or end a footnote. What is written may change a
heading or an item before it. -/
theorem step_cases (sources : Sources) (state : Draft) (event : Event) :
    (written? sources state event = none ∧ (SameEvents state (step sources state event) ∨
      (∃ label, event = .start (.footnoteDefinition label) ∧
        SameEvents { state with footnote := some (footnoteKey label, []) } (step sources state event)) ∨
      ∃ label, event = .stop (.footnoteDefinition label) ∧
        SameEvents state.endFootnote (step sources state event))) ∨
    ∃ written base, written? sources state event = some written ∧
      (base = state ∨ base = state.endHeading ∨ base = state.mapEvents (changeLatest asTask?)) ∧
      SameEvents (base.push written) (step sources state event) := by
  rcases step_origin sources state event with ⟨quiet, -, others⟩ | ⟨written, base, made, origin, same, -⟩
  · exact .inl ⟨quiet, others⟩
  · exact .inr ⟨written, base, made, origin, same⟩

/-- One event writes what suits the place where it stands. -/
theorem Listed.step {suits : Option Nat → Event → Prop} (steady : Steady suits) (listed : Listed suits depth state)
    (suited : ∀ written, written? sources state event = some written → suits depth written)
    (between : ∀ label, event = .start (.footnoteDefinition label) ∨ event = .stop (.footnoteDefinition label) →
      depth = none) :
    Listed suits ((written? sources state event).elim depth (Event.imageAfter depth)) (Draft.step sources state event) := by
  have reread {base : Draft} {depth' : Option Nat} (listed : Listed suits depth' base)
      (same : SameEvents base (Draft.step sources state event)) : Listed suits depth' (Draft.step sources state event) :=
    listed.of_same same.footnote same.out same.definitions
  rcases step_cases sources state event with
    ⟨quiet, same | ⟨label, start, same⟩ | ⟨label, stop, same⟩⟩ | ⟨written, base, made, origin, same⟩
  · rw [quiet]
    exact reread listed same
  · obtain rfl := between label (.inl start)
    rw [quiet]
    exact reread (listed.openFootnote _) same
  · obtain rfl := between label (.inr stop)
    rw [quiet]
    exact reread listed.endFootnote same
  · rw [made]
    refine reread (Listed.push ?_ (suited written made)) same
    rcases origin with rfl | rfl | rfl
    · exact listed
    · exact listed.endHeading steady
    · exact listed.asTask steady

theorem imageAfter_writtenAs (sources : Sources) (state : Draft) (event : Event) :
    (writtenAs sources state event).imageAfter depth = event.imageAfter depth := by
  cases event with
  | start tag => cases tag <;> cases depth <;> rfl
  | footnoteReference label =>
    simp only [writtenAs]
    split <;> cases depth <;> rfl
  | _ => cases depth <;> rfl

/-! ## Tags -/

/-- Code holds no tags, and an image only those of a line. -/
def Stacked : List Tag → Prop
  | [] => True
  | tag :: outer => inCode outer = false ∧ (inImage outer = true → tag.isInline = true) ∧ Stacked outer

/-- A tag that does not stand in a line is not in an image. -/
theorem depthOf_of_block {tag : Tag} {outer : List Tag} (stacked : Stacked (tag :: outer))
    (block : tag.isInline = false) : depthOf outer = none := by
  refine depthOf_eq_none.mpr ?_
  rw [← Bool.not_eq_true]
  intro inside
  cases block.symm.trans (stacked.2.1 inside)

/-- What is open after an event. -/
inductive Turns : List Tag → Event → List Tag → Prop where
  | start {stack : List Tag} {tag : Tag} (allowed : (Event.start tag).AllowedIn stack) :
      Turns stack (.start tag) (tag :: stack)
  | stop {tag : Tag} {outer : List Tag} : Turns (tag :: outer) (.stop tag) outer
  | leaf {stack : List Tag} {event : Event} (allowed : event.AllowedIn stack) (noStart : ∀ tag, event ≠ .start tag)
      (noStop : ∀ tag, event ≠ .stop tag) : Turns stack event stack

theorem turns_of_nested {rest : List Event} (nested : Nested stack (event :: rest)) :
    ∃ stack', Turns stack event stack' ∧ Nested stack' rest := by
  cases event with
  | start tag => exact ⟨_, .start nested.1, nested.2⟩
  | stop tag =>
    obtain ⟨outer, rfl, inner⟩ := nested
    exact ⟨outer, .stop, inner⟩
  | _ => exact ⟨stack, .leaf nested.1 (fun _ same => by cases same) (fun _ same => by cases same), nested.2⟩

namespace Turns

variable {stack' : List Tag}

theorem of_start {tag : Tag} (turns : Turns stack (.start tag) stack') : stack' = tag :: stack := by
  cases turns with
  | start => rfl
  | leaf allowed noStart => exact absurd rfl (noStart tag)

theorem of_stop {tag : Tag} (turns : Turns stack (.stop tag) stack') : stack = tag :: stack' := by
  cases turns with
  | stop => rfl
  | leaf allowed noStart noStop => exact absurd rfl (noStop tag)

theorem imageAfter (turns : Turns stack event stack') : event.imageAfter (depthOf stack) = depthOf stack' := by
  cases turns with
  | start => rfl
  | stop => exact imageAfter_stop _ _ _
  | leaf allowed noStart noStop =>
    cases event with
    | start tag => exact absurd rfl (noStart tag)
    | stop tag => exact absurd rfl (noStop tag)
    | _ => cases depthOf stack <;> rfl

theorem images_cons_of_other {tag : Tag} {outer : List Tag} (other : tag.isImage = false) :
    images (tag :: outer) = images outer :=
  List.countP_cons_of_neg (by rw [other]; exact Bool.false_ne_true)

theorem imagesAfter (turns : Turns stack event stack') : imagesAfter (images stack) event = images stack' := by
  cases turns with
  | @start _ tag =>
    cases tag with
    | image target => exact (List.countP_cons_of_pos rfl).symm
    | _ => exact (images_cons_of_other rfl).symm
  | @stop tag outer =>
    cases tag with
    | image target => exact congrArg (· - 1) (List.countP_cons_of_pos rfl)
    | _ => exact images_cons_of_other rfl
  | leaf allowed noStart noStop =>
    cases event with
    | start tag => exact absurd rfl (noStart tag)
    | stop tag => exact absurd rfl (noStop tag)
    | _ => rfl

/-- Code ends, or goes on with text. -/
theorem inCode (turns : Turns stack event stack') (stacked : Stacked stack) (inside : Markdown.inCode stack = true) :
    (∃ info, stack = .codeBlock info :: stack' ∧ event = .stop (.codeBlock info)) ∨
      ∃ t, event = .text t ∧ stack' = stack := by
  cases turns with
  | start allowed =>
    obtain ⟨t, same⟩ := allowed.2 inside
    cases same
  | @stop tag =>
    have isCode : (tag.isCode || Markdown.inCode stack') = true := inside
    rw [stacked.1, Bool.or_false] at isCode
    cases tag with
    | codeBlock info => exact .inl ⟨info, rfl, rfl⟩
    | _ => cases isCode
  | leaf allowed =>
    obtain ⟨t, same⟩ := allowed.2 inside
    exact .inr ⟨t, same, rfl⟩

/-- Outside of code, only a block begins code. -/
theorem outside (turns : Turns stack event stack') (stacked : Stacked stack) (outside : Markdown.inCode stack = false)
    (other : ∀ info, event ≠ .start (.codeBlock info)) : Markdown.inCode stack' = false := by
  cases turns with
  | @start _ tag =>
    cases tag with
    | codeBlock info => exact absurd rfl (other info)
    | _ => exact outside
  | stop => exact stacked.1
  | leaf => exact outside

theorem stacked (turns : Turns stack event stack') (stacked : Stacked stack) : Stacked stack' := by
  cases turns with
  | start allowed =>
    refine ⟨?_, allowed.1, stacked⟩
    rw [← Bool.not_eq_true]
    intro code
    obtain ⟨t, same⟩ := allowed.2 code
    cases same
  | stop => exact stacked.2.2
  | leaf => exact stacked

/-- A footnote stands between blocks. -/
theorem between {label : String} (turns : Turns stack event stack') (stacked : Stacked stack)
    (footnote : event = .start (.footnoteDefinition label) ∨ event = .stop (.footnoteDefinition label)) :
    depthOf stack = none := by
  rcases footnote with rfl | rfl
  · have opened := turns.stacked stacked
    rw [turns.of_start] at opened
    exact depthOf_of_block opened rfl
  · obtain rfl := turns.of_stop
    rw [depthOf_cons, depthOf_of_block stacked rfl]
    rfl

end Turns

/-- A draft whose events suit the places where they stand, within the tags that are open. Code is being read exactly
when it is the innermost of them. -/
structure Stands (suits : Option Nat → Event → Prop) (stack : List Tag) (state : Draft) : Prop where
  /-- The events suit the places where they stand. -/
  lists : Listed suits (depthOf stack) state
  /-- The tags stand where they may. -/
  stacked : Stacked stack
  /-- The draft counts the images that are open. -/
  images : state.imageDepth = images stack
  /-- Otherwise no code is open. -/
  outside : state.code = none → inCode stack = false
  /-- Code is the innermost tag. -/
  inside : ∀ block ∈ state.code, inCode stack = true

/-- How many tags are open in an image after what is written for an event. -/
theorem imageAfter_written? {suits : Option Nat → Event → Prop} {stack' : List Tag} (stands : Stands suits stack state)
    (turns : Turns stack event stack') :
    (written? sources state event).elim (depthOf stack) (Event.imageAfter (depthOf stack)) = depthOf stack' := by
  have general : (writtenAs sources state event).imageAfter (depthOf stack) = depthOf stack' :=
    (imageAfter_writtenAs sources state event).trans turns.imageAfter
  unfold written?
  cases reading : state.code with
  | some block =>
    rcases turns.inCode stands.stacked (stands.inside block reading) with ⟨info, rfl, rfl⟩ | ⟨t, rfl, rfl⟩
    · have between := depthOf_of_block stands.stacked rfl
      change Event.imageAfter (depthOf (.codeBlock info :: stack')) (.html _) = depthOf stack'
      rw [depthOf_cons, between]
      rfl
    · rfl
  | none =>
    -- a block of code and a footnote write nothing when they begin, and they stand between blocks
    have block (tag : Tag) (same : event = .start tag) (block : tag.isInline = false) (apart : tag.isImage = false) :
        depthOf stack = depthOf stack' := by
      subst same
      have opened := turns.stacked stands.stacked
      rw [turns.of_start] at opened ⊢
      rw [depthOf_cons, depthOf_of_block opened block]
      cases tag <;> first | rfl | cases apart
    cases event with
    | start tag =>
      cases tag with
      | codeBlock info => exact block _ rfl rfl rfl
      | footnoteDefinition label => exact block _ rfl rfl rfl
      | _ => exact general
    | stop tag =>
      cases tag with
      | footnoteDefinition label =>
        have between := turns.between stands.stacked (.inr rfl)
        have after := turns.imageAfter
        rw [between] at after ⊢
        exact after
      | _ => exact general
    | _ => exact general

/-- One event. -/
theorem Stands.step {suits : Option Nat → Event → Prop} {stack' : List Tag} (steady : Steady suits)
    (stands : Stands suits stack state) (turns : Turns stack event stack')
    (suited : ∀ written, written? sources state event = some written → suits (depthOf stack) written) :
    Stands suits stack' (Draft.step sources state event) := by
  have lists := stands.lists.step steady suited fun label => turns.between stands.stacked
  rw [imageAfter_written? stands turns] at lists
  have stacked := turns.stacked stands.stacked
  have images : imagesAfter state.imageDepth event = Galley.images stack' := by
    rw [stands.images]
    exact turns.imagesAfter
  cases reading : state.code with
  | some block =>
    rcases turns.inCode stands.stacked (stands.inside block reading) with ⟨info, rfl, rfl⟩ | ⟨t, rfl, rfl⟩
    · -- the code ends: its markup is written, and what is around it holds no code
      have frames := frames_mapEvents { state with code := none, diagrams := (rendered sources state block).2 }
        (.html (rendered sources state block).1 :: ·)
      have ended : Draft.step sources state (.stop (.codeBlock info)) = state.endCode sources block := by
        unfold Draft.step
        rw [reading]
      rw [ended] at lists ⊢
      refine ⟨lists, stacked, frames.images.trans images, fun _ => stands.stacked.1, fun other some => ?_⟩
      cases frames.code.symm.trans some
    · have longer : Draft.step sources state (.text t) = { state with code := some { block with code := block.code ++ t } } := by
        unfold Draft.step
        rw [reading]
      rw [longer] at lists ⊢
      exact ⟨lists, stacked, images, fun absent => (by cases absent), fun _ _ => stands.inside block reading⟩
  | none =>
    have outside : Draft.step sources state event = state.stepOutside sources event := by
      unfold Draft.step
      rw [reading]
    rw [outside] at lists ⊢
    by_cases code : ∃ info, event = .start (.codeBlock info)
    · obtain ⟨info, rfl⟩ := code
      obtain rfl := turns.of_start
      exact ⟨lists, stacked, images, fun absent => (by cases absent), fun _ _ => rfl⟩
    · have other (info : Option String) (same : event = .start (.codeBlock info)) : False := code ⟨info, same⟩
      have frames := frames_stepOutside sources state other
      have none := frames.code.trans reading
      refine ⟨lists, stacked, frames.images.trans images, fun _ => ?_, fun block some => ?_⟩
      · exact turns.outside stands.stacked (stands.outside reading) other
      · cases none.symm.trans some

/-- Nothing is open in the beginning. -/
theorem Stands.start {suits : Option Nat → Event → Prop} (ids : Diagram.Naming) : Stands suits [] (.start ids) := by
  refine ⟨⟨⟨trivial, rfl⟩, ?_, ?_⟩, trivial, rfl, fun _ => rfl, ?_⟩ <;> intro _ absent <;> cases absent

/-! ## Footnotes at the end -/

/-- What the converter writes around footnotes suits the place where it stands. -/
structure Framed (suits : Option Nat → Event → Prop) : Prop where
  /-- The link back is put in somewhere. -/
  back : ∀ number depth, suits depth (backReference number)
  /-- The start of an item. -/
  itemStart : ∀ number : Nat, suits none (.html ("<li id=\"fn-" ++ toString number ++ "\">\n"))
  /-- The end of an item. -/
  itemEnd : suits none (.html "</li>\n")
  /-- The start of the section. -/
  sectionStart : suits none (.html "<section class=\"footnotes\">\n<ol>\n")
  /-- The end of the section. -/
  sectionEnd : suits none (.html "</ol>\n</section>\n")

variable {suits : Option Nat → Event → Prop}

theorem seats_footnoteItem {events : List Event} (framed : Framed suits) (number : Nat)
    (seats : Seats suits events none) : Seats suits (footnoteItem number events) none := by
  have anywhere (depth : Option Nat) : suits depth (backReference number) ∧
      (backReference number).imageAfter depth = depth := ⟨framed.back number depth, by cases depth <;> rfl⟩
  have reversed : Seats suits events.reverse.reverse none := by rwa [List.reverse_reverse]
  unfold footnoteItem
  simp only
  refine (Seats.html (framed.itemStart number)).append (Seats.append ?_ (Seats.html framed.itemEnd))
  cases made : insertBack? (backReference number) events.reverse with
  | none =>
    exact Seats.cons_iff.mpr ⟨none, reversed, anywhere none⟩
  | some found => exact reversed.insertBack? anywhere made

theorem seats_footnoteItems {definitions : List (String × List Event)} (framed : Framed suits)
    (seats : ∀ definition ∈ definitions, Seats suits definition.2 none) (number : Nat) (keys : List String) :
    Seats suits (footnoteItems definitions number keys) none := by
  induction keys generalizing number with
  | nil => exact ⟨trivial, rfl⟩
  | cons key rest ih =>
    refine (seats_footnoteItem framed number ?_).append (ih (number + 1))
    cases known : definitions.lookup key with
    | none => exact ⟨trivial, rfl⟩
    | some events =>
      obtain ⟨earlier, later, same, -⟩ := List.lookup_eq_some_iff.mp known
      exact seats (key, events) (by rw [same]; simp)

/-- With its footnotes at the end a draft without open tags is seated. -/
theorem Listed.finish (framed : Framed suits) (listed : Listed suits none state) : Seats suits state.finish none := by
  have closed := listed.endFootnote
  have ended := footnote_endFootnote state
  unfold Draft.finish
  simp only
  generalize state.endFootnote = final at closed ended
  have out : Seats suits final.out.reverse none := by
    have current := closed.current
    rwa [ended] at current
  refine out.append ?_
  unfold footnoteSection
  split
  · exact ⟨trivial, rfl⟩
  · exact (Seats.html framed.sectionStart).append
      ((seats_footnoteItems framed closed.definitions 1 _).append (Seats.html framed.sectionEnd))

end Draft
end Galley
