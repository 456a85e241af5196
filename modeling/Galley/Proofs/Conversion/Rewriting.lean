import Galley.Proofs.Conversion.Layout
import Galley.Proofs.Markdown.Boxes

/-!
# Conversion as a rewriting of single events

A draft goes back to what it has written: a heading gets its id at its end, an item its class when a box comes, and
a block of code is written at its end. In a document without footnotes all of this could be written at once by
looking ahead, one event for one event.

* `headingText`, `codeText`, `holdsBox` — what has to be looked for ahead;
* `Passed`, `rewritten` — what stands for each event, and what is kept from one event to the next;
* `Draft.whole` — what a draft has written and what stands for the rest;
* `Draft.Fits.step`, `Draft.Fits.run` — taking an event leaves that as it was;
* `finish_eq_rewritten` — well-nested events without footnotes are rewritten one by one;
* `html_convert` — so is every document without footnotes.
-/

namespace Galley

open Galley.Markdown (Event Tag tagged headingsInLine boxesLead)

/-! ## Looking ahead -/

/-- The text and the code of a heading up to its end, without tokens. -/
def headingText (sources : Sources) : List Event → String
  | [] => ""
  | .stop (.heading _ _) :: _ => ""
  | .text t :: rest => sources.extraction.unmask t ++ headingText sources rest
  | .code t :: rest => sources.extraction.unmask t ++ headingText sources rest
  | _ :: rest => headingText sources rest

/-- The text up to the next event that is no text. -/
def codeText : List Event → String
  | .text t :: rest => t ++ codeText rest
  | _ => ""

/-- Whether a box stands in the item that is open, and not in an item inside. `depth` is the number of items that
    have begun inside. -/
def holdsBox : (depth : Nat) → List Event → Bool
  | _, [] => false
  | depth, .start .item :: rest => holdsBox (depth + 1) rest
  | 0, .stop .item :: _ => false
  | depth + 1, .stop .item :: rest => holdsBox depth rest
  | 0, .taskMarker _ :: _ => true
  | depth, _ :: rest => holdsBox depth rest

/-! ## What stands for an event -/

/-- What is known at a place of all that stands before it. -/
structure Passed where
  /-- The ids of headings in use. -/
  used : Heading.UsedIds
  /-- The diagrams so far. -/
  diagrams : Code.PassDiagrams
  /-- How many images are open. -/
  images : Nat
  /-- Whether a block of code is open. -/
  inCode : Bool

namespace Passed

/-- A block of code as its language has it, and the diagrams after it. `rest` begins with the text of the block. -/
def codeMarkup (sources : Sources) (passed : Passed) (info : Option String) (rest : List Event) :
    String × Code.PassDiagrams :=
  sources.registry.render ⟨info.getD "", sources.extraction.unmask (codeText rest)⟩ passed.diagrams

/-- The event that stands for one in front of others. A block of code is written where it begins. -/
def written? (sources : Sources) (passed : Passed) (event : Event) (rest : List Event) : Option Event :=
  if passed.inCode then none
  else
    match event with
    | .start (.codeBlock info) => some (.html (passed.codeMarkup sources info rest).1)
    | .start (.heading level id) =>
      some (.start (.heading level ((passed.used.assign (headingText sources rest)).1.or id)))
    | .start .item => some (if holdsBox 0 rest then .html "<li class=\"task-list-item\">" else .start .item)
    | .start tag => some (.start (openedTag sources tag))
    | .footnoteReference label => some (.text ("[^" ++ label ++ "]"))
    | event => some (singleOf sources passed.images event)

/-- What is known after an event in front of others. -/
def next (sources : Sources) (passed : Passed) (event : Event) (rest : List Event) : Passed :=
  if passed.inCode then
    match event with
    | .stop (.codeBlock _) => { passed with inCode := false }
    | _ => passed
  else
    match event with
    | .start (.codeBlock info) =>
      { passed with diagrams := (passed.codeMarkup sources info rest).2, inCode := true }
    | .start (.heading _ _) => { passed with used := (passed.used.assign (headingText sources rest)).2 }
    | event => { passed with images := Draft.imagesAfter passed.images event }

end Passed

/-- Events with what stands for each of them, in the same order. -/
def rewritten (sources : Sources) : Passed → List Event → List Event
  | _, [] => []
  | passed, event :: rest =>
    (passed.written? sources event rest).toList ++ rewritten sources (passed.next sources event rest) rest

/-! ## What is asked of the events -/

/-- Whether blocks of code hold only text and end. `inside` tells whether one is open. -/
def textsInCode : (inside : Bool) → List Event → Bool
  | inside, [] => !inside
  | true, .text _ :: rest => textsInCode true rest
  | true, .stop (.codeBlock _) :: rest => textsInCode false rest
  | true, _ :: _ => false
  | false, .start (.codeBlock _) :: rest => textsInCode true rest
  | false, _ :: rest => textsInCode false rest

/-- Whether an event opens or closes a footnote. -/
def Markdown.Event.isNoteTag : Event → Bool
  | .start tag => tag.isFootnote
  | .stop tag => tag.isFootnote
  | _ => false

variable {sources : Sources} {event : Event} {events front back inner rest : List Event} {tag : Tag}

theorem textsInCode_texts (texts : List String) :
    textsInCode true (texts.map .text ++ back) = textsInCode true back := by
  induction texts with
  | nil => rfl
  | cons text rest ih => exact ih

theorem textsInCode_single (single : event.isSingle = true) :
    textsInCode false (event :: back) = textsInCode false back := by
  cases event <;> first | rfl | cases single

theorem textsInCode_start (other : tag.isCode = false) :
    textsInCode false (.start tag :: back) = textsInCode false back := by
  cases tag <;> first | rfl | cases other

theorem textsInCode_stop : textsInCode false (.stop tag :: back) = textsInCode false back := by
  cases tag <;> rfl

/-- Well-nested events close the blocks of code that they open. -/
theorem WellNested.textsInCode_append (nested : WellNested front) (back : List Event) :
    textsInCode false (front ++ back) = textsInCode false back := by
  induction nested generalizing back with
  | nil => rfl
  | single single => exact textsInCode_single single
  | around other inside ih => rw [tagged_append, textsInCode_start other, ih, textsInCode_stop]
  | code info texts =>
    rw [tagged_append, textsInCode, textsInCode_texts]
    rfl
  | append first second ih ih' => rw [List.append_assoc, ih, ih']

theorem WellNested.textsInCode (nested : WellNested events) : textsInCode false events = true := by
  have closed := nested.textsInCode_append []
  rw [List.append_nil] at closed
  exact closed

/-- Where no footnote is defined, none ends. -/
theorem WellNested.isNoteTag_eq_false (nested : WellNested events) (noNotes : definedFootnotes events = []) :
    ∀ event ∈ events, event.isNoteTag = false := by
  induction nested with
  | nil => simp
  | @single event single =>
    intro other member
    rw [List.mem_singleton.mp member]
    cases event <;> first | rfl | cases single
  | @around tag inner other inside ih =>
    cases note : tag.isFootnote with
    | true =>
      obtain ⟨label, rfl⟩ := Tag.eq_of_isFootnote note
      simp [definedFootnotes_footnote] at noNotes
    | false =>
      rw [definedFootnotes_tagged note] at noNotes
      have ends : ∀ event ∈ [Event.stop tag], event.isNoteTag = false := List.forall_mem_singleton.mpr note
      exact List.forall_mem_cons.mpr ⟨note, List.forall_mem_append.mpr ⟨ih noNotes, ends⟩⟩
  | code info texts =>
    intro event member
    simp only [tagged, List.mem_cons, List.mem_append, List.mem_map, List.not_mem_nil, or_false] at member
    rcases member with rfl | ⟨text, -, rfl⟩ | rfl <;> rfl
  | append first second ih ih' =>
    rw [definedFootnotes_append, List.append_eq_nil_iff] at noNotes
    exact List.forall_mem_append.mpr ⟨ih noNotes.1, ih' noNotes.2⟩

/-- A box that may not come does not stand in the item that is open. -/
theorem holdsBox_of_boxesLead {leads : Bool} {depth : Nat} (lead : boxesLead leads events = true)
    (closed : depth = 0 → leads = false) : holdsBox depth events = false := by
  induction events generalizing leads depth with
  | nil => rfl
  | cons event rest ih =>
    cases event with
    | start tag =>
      cases tag with
      | item => exact ih lead (by omega)
      | _ => exact ih lead closed
    | stop tag =>
      cases tag with
      | item =>
        cases depth with
        | zero => rfl
        | succ depth => exact ih lead fun _ => rfl
      | _ => exact ih lead closed
    | taskMarker isChecked =>
      rw [boxesLead, Bool.and_eq_true] at lead
      cases depth with
      | zero => cases (closed rfl).symm.trans lead.1
      | succ depth => exact ih lead.2 (by omega)
    | _ => exact ih lead closed

/-! ## What a draft and the rest come to -/

namespace Draft

variable {state next : Draft} {written : Event}

/-- The block of code that is being read, as its language has it in the end, and the diagrams after it. -/
def pendingCode (sources : Sources) (state : Draft) (rest : List Event) : Option (String × Code.PassDiagrams) :=
  state.code.map fun block =>
    sources.registry.render ⟨block.info, sources.extraction.unmask (block.code ++ codeText rest)⟩ state.diagrams

/-- The id that the heading that is being read gets in the end, and the ids in use after it. -/
def pendingId (sources : Sources) (state : Draft) (rest : List Event) : Option String × Heading.UsedIds :=
  match state.heading with
  | some text => state.used.assign (text ++ headingText sources rest)
  | none => (none, state.used)

/-- What is known when all that is being read has ended. -/
def passed (sources : Sources) (state : Draft) (rest : List Event) : Passed where
  used := (state.pendingId sources rest).2
  diagrams := (state.pendingCode sources rest).elim state.diagrams Prod.snd
  images := state.imageDepth
  inCode := state.code.isSome

/-- Events, the latest first, with an id for the last heading, if there is one for it. -/
def identified (id : Option String) (events : List Event) : List Event :=
  id.elim events fun id => changeLatest (withId? id) events

/-- Events, the latest first, with the class of tasks for the last item, if it holds a box. -/
def boxed (holds : Bool) (events : List Event) : List Event :=
  if holds then changeLatest asTask? events else events

/-- What has been written, the latest first, as it is when all that is being read has ended. -/
def settled (sources : Sources) (state : Draft) (rest : List Event) : List Event :=
  boxed (holdsBox 0 rest) (identified (state.pendingId sources rest).1
    ((state.pendingCode sources rest).toList.map (fun code => .html code.1) ++ state.out))

/-- What has been written and what stands for the rest, in their order. -/
def whole (sources : Sources) (state : Draft) (rest : List Event) : List Event :=
  (state.settled sources rest).reverse ++ rewritten sources (state.passed sources rest) rest

/-! ### Changes of what was written -/

theorem identified_cons (id : Option String) (other : ∀ id, withId? id event = none) :
    identified id (event :: events) = event :: identified id events := by
  cases id with
  | none => rfl
  | some id => simp [identified, changeLatest, other]

theorem identified_heading (id : Option String) (level : Nat) (old : Option String) :
    identified id (.start (.heading level old) :: events) = .start (.heading level (id.or old)) :: events := by
  cases id <;> rfl

theorem boxed_cons (holds : Bool) (other : asTask? event = none) :
    boxed holds (event :: events) = event :: boxed holds events := by
  cases holds with
  | false => rfl
  | true => simp [boxed, changeLatest, other]

theorem boxed_item (holds : Bool) :
    boxed holds (.start .item :: events) =
      (if holds then .html "<li class=\"task-list-item\">" else .start .item) :: events := by
  cases holds <;> rfl

/-- An id changes headings only, and a box changes items only. -/
theorem identified_boxed (id : Option String) (holds : Bool) (events : List Event) :
    identified id (boxed holds events) = boxed holds (identified id events) := by
  -- the latest item and the latest heading are different events, whichever comes first
  induction events with
  | nil => cases id <;> cases holds <;> rfl
  | cons event rest ih =>
    by_cases item : event = .start .item
    · subst item
      have other (id : String) :
          withId? id (if holds then .html "<li class=\"task-list-item\">" else .start .item) = none := by
        cases holds with
        | false => rfl
        | true => rfl
      rw [boxed_item, identified_cons id other, identified_cons id fun _ => rfl, boxed_item]
    · have noItem : asTask? event = none := by
        unfold asTask?
        split
        · exact absurd rfl item
        · rfl
      by_cases heading : ∃ level old, event = .start (.heading level old)
      · obtain ⟨level, old, rfl⟩ := heading
        rw [boxed_cons holds noItem, identified_heading, identified_heading, boxed_cons holds rfl]
      · have noHeading (id : String) : withId? id event = none := by
          unfold withId?
          split
          · exact absurd ⟨_, _, rfl⟩ heading
          · rfl
        rw [boxed_cons holds noItem, identified_cons id noHeading, ih, identified_cons id noHeading,
          boxed_cons holds noItem]

/-! ### One event -/

theorem mapEvents_of_body (body : state.footnote = none) (f : List Event → List Event) :
    state.mapEvents f = { state with out := f state.out } := by
  simp only [mapEvents, body]

theorem push_of_body (body : state.footnote = none) (event : Event) :
    state.push event = { state with out := event :: state.out } :=
  mapEvents_of_body body _

theorem settled_of_outside (outside : state.code = none) :
    state.settled sources rest =
      boxed (holdsBox 0 rest) (identified (state.pendingId sources rest).1 state.out) := by
  simp [settled, pendingCode, outside]

/-- What a step has to do where an event is written for the one that it takes. -/
theorem whole_of_written
    (stands : (state.passed sources (event :: rest)).written? sources event rest = some written)
    (settled : next.settled sources rest = written :: state.settled sources (event :: rest))
    (passed : next.passed sources rest = (state.passed sources (event :: rest)).next sources event rest) :
    next.whole sources rest = state.whole sources (event :: rest) := by
  simp [whole, rewritten, stands, settled, passed]

/-- What a step has to do where no event is written. -/
theorem whole_of_silent
    (stands : (state.passed sources (event :: rest)).written? sources event rest = none)
    (settled : next.settled sources rest = state.settled sources (event :: rest))
    (passed : next.passed sources rest = (state.passed sources (event :: rest)).next sources event rest) :
    next.whole sources rest = state.whole sources (event :: rest) := by
  simp [whole, rewritten, stands, settled, passed]

/-- An event that is no start of a heading or an item goes in front of what was written. -/
theorem settled_of_pushed (outside : state.code = none) (outside' : next.code = none)
    (out : next.out = written :: state.out)
    (pending : next.pendingId sources rest = state.pendingId sources (event :: rest))
    (box : holdsBox 0 rest = holdsBox 0 (event :: rest)) (noItem : asTask? written = none)
    (noHeading : ∀ id, withId? id written = none) :
    next.settled sources rest = written :: state.settled sources (event :: rest) := by
  rw [settled_of_outside outside, settled_of_outside outside', out, pending, box, identified_cons _ noHeading,
    boxed_cons _ noItem]

/-- What an event adds to the text of a heading. -/
def heard (sources : Sources) : Event → String
  | .text t => sources.extraction.unmask t
  | .code t => sources.extraction.unmask t
  | _ => ""

/-- Whether nothing has to be looked for in front of an event or behind it. -/
def isOrdinary : Event → Bool
  | .start (.codeBlock _) => false
  | .start (.heading _ _) => false
  | .start .item => false
  | .stop (.heading _ _) => false
  | .taskMarker _ => false
  | event => !event.isNoteTag

section Ordinary

variable (ordinary : isOrdinary event = true)
include ordinary

theorem headingText_of_isOrdinary (sources : Sources) (rest : List Event) :
    headingText sources (event :: rest) = heard sources event ++ headingText sources rest := by
  cases event with
  | start tag => simp [headingText, heard]
  | stop tag =>
    cases tag with
    | heading level id => cases ordinary
    | _ => simp [headingText, heard]
  | _ => simp [headingText, heard]

theorem headingsInLine_of_isOrdinary {inside : Bool} (inLine : headingsInLine inside (event :: rest) = true) :
    headingsInLine inside rest = true := by
  cases event with
  | start tag =>
    cases tag with
    | heading level id => cases ordinary
    | _ => exact (Bool.and_eq_true_iff.mp inLine).2
  | stop tag =>
    cases tag with
    | heading level id => cases ordinary
    | _ => exact (Bool.and_eq_true_iff.mp inLine).2
  | _ => exact (Bool.and_eq_true_iff.mp inLine).2

theorem boxesLead_of_isOrdinary {leads : Bool} (lead : boxesLead leads (event :: rest) = true) :
    (∃ leads, boxesLead leads rest = true) ∧ holdsBox 0 rest = holdsBox 0 (event :: rest) := by
  cases event with
  | start tag =>
    cases tag with
    | item => cases ordinary
    | _ => exact ⟨⟨leads, lead⟩, rfl⟩
  | stop tag =>
    cases tag with
    | item => exact ⟨⟨false, lead⟩, holdsBox_of_boxesLead lead fun _ => rfl⟩
    | _ => exact ⟨⟨leads, lead⟩, rfl⟩
  | taskMarker isChecked => cases ordinary
  | _ => exact ⟨⟨leads, lead⟩, rfl⟩

theorem textsInCode_of_isOrdinary : textsInCode false (event :: rest) = textsInCode false rest := by
  cases event with
  | start tag =>
    cases tag with
    | codeBlock info => cases ordinary
    | _ => rfl
  | stop tag => exact textsInCode_stop
  | _ => rfl

theorem next_of_isOrdinary {passed : Passed} (outside : passed.inCode = false) :
    passed.next sources event rest = { passed with images := imagesAfter passed.images event } := by
  unfold Passed.next
  rw [outside, if_neg Bool.false_ne_true]
  cases event with
  | start tag =>
    cases tag with
    | codeBlock info => cases ordinary
    | heading level id => cases ordinary
    | _ => rfl
  | _ => rfl

/-- The draft and the rewriting put the same event for an ordinary one. -/
theorem step_of_isOrdinary (rest : List Event) {passed : Passed} (noneDefined : sources.defined = [])
    (body : state.footnote = none) (outside : state.code = none) (outside' : passed.inCode = false)
    (images : passed.images = state.imageDepth) :
    ∃ written, passed.written? sources event rest = some written ∧ asTask? written = none ∧
      (∀ id, withId? id written = none) ∧
      step sources state event =
        { state with
          out := written :: state.out,
          heading := state.heading.map (· ++ heard sources event),
          imageDepth := imagesAfter state.imageDepth event } := by
  have unheard : state.heading.map (· ++ "") = state.heading := by simp
  have plain (written : Event) :
      state.push written = { state with out := written :: state.out, heading := state.heading.map (· ++ "") } := by
    rw [push_of_body body, unheard]
  unfold Passed.written?
  rw [outside', if_neg Bool.false_ne_true, images, step_of_outside outside]
  cases event with
  | start tag =>
    cases tag with
    | codeBlock info => cases ordinary
    | heading level id => cases ordinary
    | item => cases ordinary
    | footnoteDefinition label => cases ordinary
    | image target =>
      refine ⟨_, rfl, rfl, fun _ => rfl, ?_⟩
      simp only [stepOutside, heard, imagesAfter, unheard]
      exact push_of_body (by exact body) _
    | _ => exact ⟨_, rfl, rfl, fun _ => rfl, plain _⟩
  | stop tag =>
    cases tag with
    | heading level id => cases ordinary
    | footnoteDefinition label => cases ordinary
    | image target =>
      refine ⟨_, rfl, rfl, fun _ => rfl, ?_⟩
      simp only [stepOutside, heard, imagesAfter, unheard]
      exact push_of_body (by exact body) _
    | _ => exact ⟨_, rfl, rfl, fun _ => rfl, plain _⟩
  | text t => exact ⟨_, rfl, rfl, fun _ => rfl, push_of_body (by exact body) _⟩
  | code t => exact ⟨_, rfl, rfl, fun _ => rfl, push_of_body (by exact body) _⟩
  | footnoteReference label =>
    refine ⟨_, rfl, rfl, fun _ => rfl, ?_⟩
    simp only [stepOutside, reference, noneDefined]
    exact plain _
  | taskMarker isChecked => cases ordinary
  | _ => exact ⟨_, rfl, rfl, fun _ => rfl, plain _⟩

end Ordinary

/-- How a draft belongs to the events that are to come. -/
structure Fits (state : Draft) (rest : List Event) : Prop where
  body : state.footnote = none
  code : textsInCode state.code.isSome rest = true
  heading : headingsInLine state.heading.isSome rest = true
  apart : state.code.isSome = true → state.heading = none
  boxes : ∃ leads, boxesLead leads rest = true
  notes : ∀ event ∈ rest, event.isNoteTag = false

/-- Taking an event leaves what the draft and the rest come to as it was. -/
def Keeps (sources : Sources) (state : Draft) (event : Event) (rest : List Event) : Prop :=
  (step sources state event).Fits rest ∧
    (step sources state event).whole sources rest = state.whole sources (event :: rest)

theorem Fits.later (fits : state.Fits (event :: rest)) : ∀ event ∈ rest, event.isNoteTag = false :=
  fun other member => fits.notes other (List.mem_cons_of_mem _ member)

/-- Where no block of code is being read, those that come end. -/
theorem Fits.codeEnds (fits : state.Fits events) (outside : state.code = none) : textsInCode false events = true := by
  have ends := fits.code
  rwa [outside] at ends

/-- A block does not begin in a heading. -/
theorem Fits.noHeading (fits : state.Fits (.start tag :: rest)) (block : tag.isInline = false) :
    state.heading = none := by
  have inLine := fits.heading
  cases reading : state.heading with
  | none => rfl
  | some text =>
    rw [reading] at inLine
    cases tag <;> first | exact absurd inLine Bool.false_ne_true | cases block

theorem passed_of_outside (outside : state.code = none) :
    state.passed sources rest = ⟨(state.pendingId sources rest).2, state.diagrams, state.imageDepth, false⟩ := by
  simp [passed, pendingCode, outside]

theorem Fits.ordinary (fits : state.Fits (event :: rest)) (noneDefined : sources.defined = [])
    (outside : state.code = none) (ordinary : isOrdinary event = true) : Keeps sources state event rest := by
  obtain ⟨leads, lead⟩ := fits.boxes
  obtain ⟨boxes, box⟩ := boxesLead_of_isOrdinary ordinary lead
  have fitsCode := fits.codeEnds outside
  have fitsHeading := headingsInLine_of_isOrdinary ordinary fits.heading
  rw [textsInCode_of_isOrdinary ordinary] at fitsCode
  have outside' : (state.passed sources (event :: rest)).inCode = false := by rw [passed_of_outside outside]
  obtain ⟨written, stands, noItem, noHeading, stepped⟩ :=
    step_of_isOrdinary ordinary rest noneDefined fits.body outside outside' rfl
  -- what the event adds to the heading was looked for before
  have pending : pendingId sources (step sources state event) rest = state.pendingId sources (event :: rest) := by
    rw [stepped]
    unfold pendingId
    cases reading : state.heading with
    | none => rfl
    | some text => simp [headingText_of_isOrdinary ordinary, String.append_assoc]
  have code : (step sources state event).code = none := by rw [stepped]; exact outside
  constructor
  · rw [stepped]
    refine ⟨fits.body, ?_, ?_, fun reading => ?_, boxes, fits.later⟩
    · simpa [outside] using fitsCode
    · simpa using fitsHeading
    · simp [outside] at reading
  · apply whole_of_written stands
    · exact settled_of_pushed outside code (by rw [stepped]) pending box noItem noHeading
    · rw [next_of_isOrdinary ordinary outside', passed_of_outside code, passed_of_outside outside, pending, stepped]

/-- The markup of a block of code that is being read stands in front of what the box changes. -/
theorem settled_of_code {block : Code.CodeBlock} (reading : state.code = some block)
    (noHeading : state.heading = none) :
    state.settled sources rest =
      .html (sources.registry.render ⟨block.info, sources.extraction.unmask (block.code ++ codeText rest)⟩
        state.diagrams).1 :: boxed (holdsBox 0 rest) state.out := by
  simp only [settled, pendingCode, reading, pendingId, noHeading]
  exact boxed_cons _ rfl

theorem passed_of_code {block : Code.CodeBlock} (reading : state.code = some block)
    (noHeading : state.heading = none) :
    state.passed sources rest =
      ⟨state.used, (sources.registry.render
        ⟨block.info, sources.extraction.unmask (block.code ++ codeText rest)⟩ state.diagrams).2,
        state.imageDepth, true⟩ := by
  simp [passed, pendingCode, reading, pendingId, noHeading]

theorem settled_of_noHeading (outside : state.code = none) (noHeading : state.heading = none) :
    state.settled sources rest = boxed (holdsBox 0 rest) state.out := by
  rw [settled_of_outside outside, pendingId, noHeading]
  rfl

theorem passed_of_noHeading (outside : state.code = none) (noHeading : state.heading = none) :
    state.passed sources rest = ⟨state.used, state.diagrams, state.imageDepth, false⟩ := by
  rw [passed_of_outside outside, pendingId, noHeading]

theorem Fits.startCode {info : Option String} (fits : state.Fits (.start (.codeBlock info) :: rest))
    (outside : state.code = none) : Keeps sources state (.start (.codeBlock info)) rest := by
  have fitsCode := fits.codeEnds outside
  have noHeading := fits.noHeading rfl
  have inLine := (Bool.and_eq_true_iff.mp fits.heading).2
  have stepped : step sources state (.start (.codeBlock info)) =
      { state with code := some ⟨info.getD "", ""⟩ } := step_of_outside outside _
  have before : state.passed sources (.start (.codeBlock info) :: rest) =
      ⟨state.used, state.diagrams, state.imageDepth, false⟩ := passed_of_noHeading outside noHeading
  rw [Keeps, stepped]
  constructor
  · exact ⟨fits.body, fitsCode, inLine, fun _ => noHeading, fits.boxes, fits.later⟩
  · -- the block is written where it begins
    have stands : (state.passed sources (.start (.codeBlock info) :: rest)).written? sources
        (.start (.codeBlock info)) rest =
        some (.html (sources.registry.render
          ⟨info.getD "", sources.extraction.unmask (codeText rest)⟩ state.diagrams).1) := by
      rw [before]
      rfl
    apply whole_of_written stands
    · rw [settled_of_code rfl (by exact noHeading), settled_of_noHeading outside noHeading, String.empty_append]
      rfl
    · rw [passed_of_code rfl (by exact noHeading), before, Passed.next, Passed.codeMarkup, String.empty_append]
      rfl

theorem Fits.inCode {block : Code.CodeBlock} (fits : state.Fits (event :: rest)) (reading : state.code = some block) :
    Keeps sources state event rest := by
  have fitsCode := fits.code
  have noHeading : state.heading = none := fits.apart (by rw [reading]; rfl)
  rw [reading] at fitsCode
  cases event with
  | text t =>
    have inLine := (Bool.and_eq_true_iff.mp fits.heading).2
    have stepped : step sources state (.text t) =
        { state with code := some { block with code := block.code ++ t } } := by
      simp [step, reading]
    rw [Keeps, stepped]
    constructor
    · exact ⟨fits.body, fitsCode, inLine, fun _ => noHeading, fits.boxes, fits.later⟩
    · apply whole_of_silent
      · rw [passed_of_code reading noHeading]
        rfl
      · rw [settled_of_code rfl (by exact noHeading), settled_of_code reading noHeading, codeText, String.append_assoc]
        rfl
      · rw [passed_of_code rfl (by exact noHeading), passed_of_code reading noHeading, codeText, String.append_assoc]
        rfl
  | stop tag =>
    cases tag with
    | codeBlock info =>
      have inLine := (Bool.and_eq_true_iff.mp fits.heading).2
      have stepped : step sources state (.stop (.codeBlock info)) =
          { state with
            out := .html (sources.registry.render
              ⟨block.info, sources.extraction.unmask block.code⟩ state.diagrams).1 :: state.out,
            code := none,
            diagrams := (sources.registry.render
              ⟨block.info, sources.extraction.unmask block.code⟩ state.diagrams).2 } := by
        simp only [step, reading, endCode]
        exact push_of_body (by exact fits.body) _
      have ended : codeText (.stop (.codeBlock info) :: rest) = "" := rfl
      rw [Keeps, stepped]
      constructor
      · exact ⟨fits.body, fitsCode, inLine, fun _ => noHeading, fits.boxes, fits.later⟩
      · apply whole_of_silent
        · rw [passed_of_code reading noHeading]
          rfl
        · rw [settled_of_noHeading rfl (by exact noHeading), settled_of_code reading noHeading, ended,
            String.append_empty]
          exact boxed_cons _ rfl
        · rw [passed_of_noHeading rfl (by exact noHeading), passed_of_code reading noHeading, ended,
            String.append_empty]
          rfl
    | _ => cases fitsCode
  | _ => cases fitsCode

theorem Fits.startHeading {level : Nat} {id : Option String} (fits : state.Fits (.start (.heading level id) :: rest))
    (outside : state.code = none) : Keeps sources state (.start (.heading level id)) rest := by
  have fitsCode := fits.codeEnds outside
  have noHeading := fits.noHeading rfl
  have inLine : headingsInLine true rest = true := (Bool.and_eq_true_iff.mp fits.heading).2
  have stepped : step sources state (.start (.heading level id)) =
      { state with out := .start (.heading level id) :: state.out, heading := some "" } := by
    rw [step_of_outside outside, stepOutside, push_of_body fits.body]
  -- all of the text of the heading is still to come
  have pending : pendingId sources
      { state with out := .start (.heading level id) :: state.out, heading := some "" } rest =
      state.used.assign (headingText sources rest) := by
    show state.used.assign ("" ++ headingText sources rest) = _
    rw [String.empty_append]
  have before : state.passed sources (.start (.heading level id) :: rest) =
      ⟨state.used, state.diagrams, state.imageDepth, false⟩ := passed_of_noHeading outside noHeading
  rw [Keeps, stepped]
  constructor
  · exact ⟨fits.body, by rw [outside]; exact fitsCode, inLine, fun reading => by simp [outside] at reading,
      fits.boxes, fits.later⟩
  · have stands : (state.passed sources (.start (.heading level id) :: rest)).written? sources
        (.start (.heading level id)) rest =
        some (.start (.heading level ((state.used.assign (headingText sources rest)).1.or id))) := by
      rw [before]
      rfl
    apply whole_of_written stands
    · rw [settled_of_outside (by exact outside), settled_of_noHeading outside noHeading, pending,
        identified_heading]
      exact boxed_cons _ rfl
    · rw [passed_of_outside (by exact outside), before, pending]
      rfl

/-- A heading ends with the id that was pending. -/
theorem endHeading_of_body (body : state.footnote = none) (ended : headingText sources rest = "") :
    state.endHeading =
      { state with
        out := identified (state.pendingId sources rest).1 state.out,
        heading := none,
        used := (state.pendingId sources rest).2 } := by
  obtain ⟨out, footnote, definitions, references, used, heading, code, imageDepth, diagrams⟩ := state
  obtain rfl : footnote = none := body
  cases heading with
  | none => rfl
  | some text =>
    simp only [endHeading, pendingId, ended, String.append_empty]
    generalize used.assign text = assigned
    cases assigned.1 with
    | none => rfl
    | some id => rfl

theorem Fits.stopHeading {level : Nat} {id : Option String} (fits : state.Fits (.stop (.heading level id) :: rest))
    (outside : state.code = none) : Keeps sources state (.stop (.heading level id)) rest := by
  have fitsCode := fits.codeEnds outside
  have fitsHeading := fits.heading
  have stepped : step sources state (.stop (.heading level id)) =
      { state with
        out := .stop (.heading level id) ::
          identified (state.pendingId sources (.stop (.heading level id) :: rest)).1 state.out,
        heading := none,
        used := (state.pendingId sources (.stop (.heading level id) :: rest)).2 } := by
    have ended : headingText sources (.stop (.heading level id) :: rest) = "" := rfl
    rw [step_of_outside outside, stepOutside, endHeading_of_body fits.body ended]
    exact push_of_body (by exact fits.body) _
  rw [Keeps, stepped]
  constructor
  · exact ⟨fits.body, by rw [outside]; exact fitsCode, fitsHeading, fun _ => rfl, fits.boxes, fits.later⟩
  · have stands : (state.passed sources (.stop (.heading level id) :: rest)).written? sources
        (.stop (.heading level id)) rest = some (.stop (.heading level id)) := by
      rw [passed_of_outside outside]
      rfl
    apply whole_of_written stands
    · rw [settled_of_noHeading (by exact outside) rfl, settled_of_outside outside]
      exact boxed_cons _ rfl
    · rw [passed_of_noHeading (by exact outside) rfl, passed_of_outside outside]
      rfl

theorem Fits.startItem (fits : state.Fits (.start .item :: rest)) (outside : state.code = none) :
    Keeps sources state (.start .item) rest := by
  obtain ⟨leads, lead⟩ := fits.boxes
  have fitsCode := fits.codeEnds outside
  have noHeading := fits.noHeading rfl
  have inLine := (Bool.and_eq_true_iff.mp fits.heading).2
  have stepped : step sources state (.start .item) = { state with out := .start .item :: state.out } := by
    rw [step_of_outside outside]
    exact push_of_body fits.body _
  -- no box of the item around comes behind this one
  have noBox : holdsBox 0 (.start .item :: rest) = false := by
    show holdsBox 1 rest = false
    exact holdsBox_of_boxesLead lead (by omega)
  rw [Keeps, stepped]
  constructor
  · exact ⟨fits.body, by rw [outside]; exact fitsCode, inLine, fun _ => noHeading, ⟨true, lead⟩, fits.later⟩
  · have stands : (state.passed sources (.start .item :: rest)).written? sources (.start .item) rest =
        some (if holdsBox 0 rest then .html "<li class=\"task-list-item\">" else .start .item) := by
      rw [passed_of_outside outside]
      rfl
    apply whole_of_written stands
    · rw [settled_of_noHeading (by exact outside) (by exact noHeading), settled_of_noHeading outside noHeading, noBox,
        boxed_item]
      rfl
    · rw [passed_of_noHeading (by exact outside) (by exact noHeading), passed_of_noHeading outside noHeading]
      rfl

theorem Fits.taskMarker {isChecked : Bool} (fits : state.Fits (.taskMarker isChecked :: rest))
    (outside : state.code = none) : Keeps sources state (.taskMarker isChecked) rest := by
  obtain ⟨leads, lead⟩ := fits.boxes
  rw [boxesLead, Bool.and_eq_true] at lead
  have fitsCode := fits.codeEnds outside
  have inLine := (Bool.and_eq_true_iff.mp fits.heading).2
  have stepped : step sources state (.taskMarker isChecked) =
      { state with out := .taskMarker isChecked :: boxed true state.out } := by
    rw [step_of_outside outside, stepOutside, mapEvents_of_body fits.body]
    exact push_of_body (by exact fits.body) _
  have noBox : holdsBox 0 rest = false := holdsBox_of_boxesLead lead.2 fun _ => rfl
  rw [Keeps, stepped]
  constructor
  · exact ⟨fits.body, by rw [outside]; exact fitsCode, inLine, fun reading => by simp [outside] at reading,
      ⟨false, lead.2⟩, fits.later⟩
  · have stands : (state.passed sources (.taskMarker isChecked :: rest)).written? sources
        (.taskMarker isChecked) rest = some (.taskMarker isChecked) := by
      rw [passed_of_outside outside]
      rfl
    apply whole_of_written stands
    · rw [settled_of_outside (by exact outside), settled_of_outside outside, noBox, identified_cons _ fun _ => rfl,
        boxed_cons _ rfl, identified_boxed]
      rfl
    · rw [passed_of_outside (by exact outside), passed_of_outside outside]
      rfl

/-- A step leaves what the draft and the rest come to. -/
theorem Fits.step (fits : state.Fits (event :: rest)) (noneDefined : sources.defined = []) :
    Keeps sources state event rest := by
  cases reading : state.code with
  | some block => exact fits.inCode reading
  | none =>
    by_cases ordinary : isOrdinary event = true
    · exact fits.ordinary noneDefined reading ordinary
    · have noNote := fits.notes event List.mem_cons_self
      cases event with
      | start tag =>
        cases tag with
        | codeBlock info => exact fits.startCode reading
        | heading level id => exact fits.startHeading reading
        | item => exact fits.startItem reading
        | footnoteDefinition label => cases noNote
        | _ => exact absurd rfl ordinary
      | stop tag =>
        cases tag with
        | heading level id => exact fits.stopHeading reading
        | footnoteDefinition label => cases noNote
        | _ => exact absurd rfl ordinary
      | taskMarker isChecked => exact fits.taskMarker reading
      | _ => exact absurd rfl ordinary

/-- When all events are taken, what the draft has written is what it and the rest came to before. -/
theorem Fits.run (fits : state.Fits events) (noneDefined : sources.defined = []) :
    (events.foldl (Draft.step sources) state).out.reverse = state.whole sources events ∧
      (events.foldl (Draft.step sources) state).footnote = none := by
  -- the whole of a draft and the rest is the same before each event, and in the end there is no rest
  induction events generalizing state with
  | nil =>
    have code : state.code = none := by simpa [textsInCode] using fits.code
    have noHeading : state.heading = none := by simpa [headingsInLine] using fits.heading
    refine ⟨?_, fits.body⟩
    rw [whole, settled_of_noHeading code noHeading, rewritten, List.append_nil]
    rfl
  | cons event rest ih =>
    obtain ⟨fits', whole⟩ := fits.step noneDefined
    obtain ⟨written, body⟩ := ih fits'
    exact ⟨written.trans whole, body⟩

/-- Without definitions of footnotes nothing counts as a reference. -/
theorem references_foldl (noneDefined : sources.defined = []) (state : Draft) (events : List Event) :
    (events.foldl (Draft.step sources) state).references = state.references := by
  induction events generalizing state with
  | nil => rfl
  | cons event rest ih =>
    have unreferred : referencesAfter sources state.references event = state.references := by
      cases event with
      | footnoteReference label => simp [referencesAfter, noneDefined]
      | _ => rfl
    rw [List.foldl_cons, ih, (counts_step sources state event).2, unreferred, ite_self]

end Draft

/-! ## Documents without footnotes -/

/-- Whether an event is none that is written in another way: it is no block of code, no heading, no image, no box and no
    reference, there is no token where it leads to or in its code, and its text has no shortcode. -/
def isUntouched (sources : Sources) : Event → Bool
  | .start (.codeBlock _) => false
  | .start (.heading _ _) => false
  | .start (.image _) => false
  | .start (.link _ target) => Draft.unmaskTarget sources target == target
  | .text t => Shortcode.expand t == t
  | .code t => sources.extraction.unmask t == t
  | .footnoteReference _ => false
  | .taskMarker _ => false
  | _ => true

theorem holdsBox_of_isUntouched (depth : Nat) (untouched : ∀ event ∈ events, isUntouched sources event = true) :
    holdsBox depth events = false := by
  induction events generalizing depth with
  | nil => rfl
  | cons event rest ih =>
    obtain ⟨first, later⟩ := List.forall_mem_cons.mp untouched
    cases event with
    | start tag =>
      cases tag with
      | item => exact ih (depth + 1) later
      | _ => exact ih depth later
    | stop tag =>
      cases tag with
      | item =>
        cases depth with
        | zero => rfl
        | succ depth => exact ih depth later
      | _ => exact ih depth later
    | taskMarker isChecked => cases first
    | _ => exact ih depth later

/-- Events of which none is written in another way stay as they are. -/
theorem rewritten_of_isUntouched {passed : Passed} (outside : passed.inCode = false) (noImage : passed.images = 0)
    (untouched : ∀ event ∈ events, isUntouched sources event = true) :
    rewritten sources passed events = events := by
  induction events generalizing passed with
  | nil => rfl
  | cons event rest ih =>
    obtain ⟨first, later⟩ := List.forall_mem_cons.mp untouched
    have noBox : holdsBox 0 rest = false := holdsBox_of_isUntouched 0 later
    have stands : passed.written? sources event rest = some event := by
      unfold Passed.written?
      rw [outside, if_neg Bool.false_ne_true]
      cases event with
      | start tag =>
        cases tag with
        | codeBlock info => cases first
        | heading level id => cases first
        | image target => cases first
        | link mailbox target => simp [openedTag, eq_of_beq first]
        | item => simp [noBox]
        | _ => rfl
      | text t => simp [singleOf, noImage, eq_of_beq first]
      | code t => simp [singleOf, eq_of_beq first]
      | footnoteReference label => cases first
      | _ => rfl
    have passes : (passed.next sources event rest).inCode = false ∧ (passed.next sources event rest).images = 0 := by
      unfold Passed.next
      rw [outside, if_neg Bool.false_ne_true]
      cases event with
      | start tag =>
        cases tag with
        | codeBlock info => cases first
        | heading level id => cases first
        | image target => cases first
        | _ => exact ⟨rfl, noImage⟩
      | stop tag =>
        cases tag with
        | image target => simp [noImage, Draft.imagesAfter]
        | _ => exact ⟨rfl, noImage⟩
      | _ => exact ⟨rfl, noImage⟩
    rw [rewritten, stands, ih passes.1 passes.2 later]
    rfl

/-- Each event of a document without footnotes is written by itself, with a look at the events behind it. -/
theorem finish_draftOfEvents (extraction : Source.Extraction) (registry : Code.Registry) (ids : Diagram.Naming)
    (nested : WellNested events) (inLine : headingsInLine false events = true)
    (lead : boxesLead false events = true) (noNotes : definedFootnotes events = []) :
    (draftOfEvents extraction registry ids events).finish =
      rewritten ⟨extraction, registry, []⟩ ⟨.empty, .ofIds ids, 0, false⟩ events := by
  let sources : Sources := ⟨extraction, registry, []⟩
  have fits : (Draft.start ids).Fits events :=
    ⟨rfl, nested.textsInCode, inLine, fun _ => rfl, ⟨false, lead⟩, nested.isNoteTag_eq_false noNotes⟩
  have whole : (Draft.start ids).whole sources events =
      rewritten sources ⟨.empty, .ofIds ids, 0, false⟩ events := by
    rw [Draft.whole, Draft.settled_of_noHeading rfl rfl, Draft.passed_of_noHeading rfl rfl]
    cases holdsBox 0 events <;> rfl
  obtain ⟨written, body⟩ := @Draft.Fits.run sources events (.start ids) fits rfl
  have noSection : (events.foldl (Draft.step sources) (.start ids)).footnoteSection = [] := by
    rw [Draft.footnoteSection, Draft.references_foldl rfl]
    rfl
  rw [draftOfEvents, noNotes, Draft.finish, Draft.endFootnote, body]
  simp only
  rw [written, whole, noSection, List.append_nil]

/-- The markup of a document without footnotes is that of its events, each rewritten by itself. -/
theorem html_convert (extraction : Source.Extraction) (registry : Code.Registry) (ids : Diagram.Naming)
    (noNotes : definedFootnotes (Markdown.parse extraction.text) = []) :
    (convert extraction registry ids).html =
      Markdown.write (rewritten ⟨extraction, registry, []⟩ ⟨.empty, .ofIds ids, 0, false⟩
        (Markdown.parse extraction.text)) := by
  have finished := finish_draftOfEvents extraction registry ids (wellNested_parse _)
    (Markdown.headingsInLine_parse _) (Markdown.boxesLead_parse _) noNotes
  exact congrArg Markdown.write finished

/-- The events of a document without footnotes are rewritten one by one, in their order: what is written of a document
    is what stands for each of its events. If none of them is written in another way, they stay as they are. -/
theorem finish_eq_rewritten (extraction : Source.Extraction) (registry : Code.Registry) (ids : Diagram.Naming)
    {events : List Event} (nested : WellNested events) (inLine : headingsInLine false events = true)
    (lead : boxesLead false events = true) (noNotes : definedFootnotes events = []) :
    let sources : Sources := ⟨extraction, registry, []⟩
    (draftOfEvents extraction registry ids events).finish =
      rewritten sources ⟨.empty, .ofIds ids, 0, false⟩ events ∧
    ((∀ event ∈ events, isUntouched sources event = true) →
      (draftOfEvents extraction registry ids events).finish = events) := by
  intro sources
  have finished := finish_draftOfEvents extraction registry ids nested inLine lead noNotes
  refine ⟨finished, fun untouched => ?_⟩
  rw [finished]
  exact rewritten_of_isUntouched rfl rfl untouched

/-- The heading gets the id that its text and its code make, its shortcode as it is written among them; the item gets
    its class, and the block of code is a diagram. -/
theorem heading_box_and_code_are_rewritten :
    let events := Markdown.parse "# A `b` :tada:\n\n- [x] c\n\n```mermaid\nd\n```\n"
    headingsInLine false events = true ∧ boxesLead false events = true ∧ definedFootnotes events = [] ∧
      (draftOfEvents (.ofText "") (.ofDiagramTag "mermaid") .sequential events).finish =
        [.start (.heading 1 (some "a-b-tada")), .text "A ", .code "b", .text " 🎉", .stop (.heading 1 none),
          .start (.list none), .html "<li class=\"task-list-item\">", .taskMarker true, .text "c", .stop .item,
          .stop (.list none), .html "<div class=\"mermaid\" id=\"mermaid-1\">d\n</div>\n"] := by
  intro events
  have inLine : headingsInLine false events = true := by decide +kernel
  have lead : boxesLead false events = true := by decide +kernel
  have noNotes : definedFootnotes events = [] := by decide +kernel
  refine ⟨inLine, lead, noNotes, ?_⟩
  obtain ⟨rewrites, -⟩ := finish_eq_rewritten (.ofText "") (.ofDiagramTag "mermaid") .sequential
    (wellNested_parse _) inLine lead noNotes
  rw [rewrites]
  decide +kernel

end Galley
