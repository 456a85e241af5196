import Galley.Conversion
import Galley.Proofs.Code.Rendering
import Galley.Proofs.Heading.Id
import Galley.Proofs.Markdown.Written
import Galley.Proofs.Shortcode
import Galley.Proofs.Source.Counting

/-!
# Tokens while a document is converted

Converting moves the events of a document about, but it writes no event twice. So what is written holds no
token more often than the events of the document do.

* `Draft.Holds` — which tokens a draft holds;
* `Draft.Holds.step` — one event adds its own tokens;
* `Draft.Holds.finish` — footnotes are put at the end once;
* `bears_convertEvents` — the markup of some events.
-/

namespace Galley

open Galley.Markdown (Event Tag)
open Galley.Source (Marking Fits Silent Bears silent_of_plain silent_empty silent_toString)

variable {m : Marking} {k : Nat} {n : Nat → Nat} {sources : Sources} {state : Draft} {event : Event}

namespace Markdown

/-- How often the token with a number stands in some events that were written. -/
def massOf (m : Marking) (k : Nat) (events : List Event) : Nat := (events.map (Event.mass m k)).sum

theorem massOf_append (front back : List Event) :
    massOf m k (front ++ back) = massOf m k front + massOf m k back := by
  simp [massOf]

theorem massOf_reverse (events : List Event) : massOf m k events.reverse = massOf m k events := by
  simp [massOf]

theorem settled_html_of_silent {markup : String} (silent : Silent m markup) :
    (Event.html markup).Settled m :=
  silent.tokened

theorem settled_inlineHtml_of_silent {markup : String} (silent : Silent m markup) :
    (Event.inlineHtml markup).Settled m :=
  silent.tokened

theorem mass_html_of_silent {markup : String} (silent : Silent m markup) :
    (Event.html markup).mass m k = 0 :=
  Marking.occurrences_of_not_mem silent

theorem mass_inlineHtml_of_silent {markup : String} (silent : Silent m markup) :
    (Event.inlineHtml markup).mass m k = 0 :=
  Marking.occurrences_of_not_mem silent

/-- Events with such tokens only as can be written. -/
def AllSettled (m : Marking) (events : List Event) : Prop := ∀ event ∈ events, event.Settled m

end Markdown

open Galley.Markdown (massOf massOf_append massOf_reverse AllSettled settled_html_of_silent
  settled_inlineHtml_of_silent mass_html_of_silent mass_inlineHtml_of_silent)

theorem silent_unmask {text : String} (fits : Fits m sources.extraction) (whole : m.Tokened text.toList) :
    Silent m (sources.extraction.unmask text) := by
  rw [Silent, Source.Extraction.unmask, String.toList_ofList]
  exact Source.opening_not_mem_unmaskChars fits whole

namespace Draft

/-- How often the token with a number stands in what a draft holds. -/
def mass (m : Marking) (k : Nat) (state : Draft) : Nat :=
  massOf m k state.out + state.footnote.elim 0 (fun footnote => massOf m k footnote.2) +
    (state.definitions.map fun definition => massOf m k definition.2).sum +
    state.code.elim 0 fun block => m.occurrences k block.info.toList

/-- A draft has whole tokens, each at most as often as `n` says, and none in the text of a heading. -/
structure Holds (m : Marking) (n : Nat → Nat) (state : Draft) : Prop where
  /-- What has been written can be written. -/
  out : AllSettled m state.out
  /-- So can what has been read of a footnote. -/
  footnote : ∀ footnote ∈ state.footnote, AllSettled m footnote.2
  /-- So can the footnotes that have been read. -/
  definitions : ∀ definition ∈ state.definitions, AllSettled m definition.2
  /-- No footnote is referred to under two numbers. -/
  references : (state.references.map Prod.fst).Nodup
  /-- The text of a heading has no tokens. -/
  heading : ∀ text ∈ state.heading, Silent m text
  /-- Code has whole tokens. -/
  code : ∀ block ∈ state.code, m.Tokened block.info.toList ∧ m.Tokened block.code.toList
  /-- There are no more tokens. -/
  most : ∀ k, state.mass m k ≤ n k

/-- The start of an item turns into markup without tokens. -/
theorem asTask?_spec {changed : Event} (made : asTask? event = some changed) :
    event = .start .item ∧ ∃ markup, changed = .html markup ∧ Silent m markup := by
  unfold asTask? at made
  split at made
  · exact ⟨rfl, _, (Option.some.inj made).symm, silent_of_plain (by decide)⟩
  · cases made

namespace Holds

/-- Nothing is written yet. -/
theorem start (ids : Diagram.Naming) : Holds m (fun _ => 0) (.start ids) := by
  refine ⟨?_, ?_, ?_, List.nodup_nil, ?_, ?_, fun _ => Nat.le_refl _⟩ <;> intro _ absent <;> cases absent

theorem mono {p : Nat → Nat} (holds : Holds m n state) (le : ∀ k, n k ≤ p k) : Holds m p state :=
  { holds with most := fun k => Nat.le_trans (holds.most k) (le k) }

/-- A change of the events that are being written. -/
theorem mapEvents {f : List Event → List Event} {p : Nat → Nat} (holds : Holds m n state)
    (settled : ∀ events, AllSettled m events → AllSettled m (f events))
    (more : ∀ events k, massOf m k (f events) ≤ massOf m k events + p k) :
    Holds m (fun k => n k + p k) (state.mapEvents f) := by
  unfold Draft.mapEvents
  split
  next key events reading =>
    refine { holds with
      footnote := fun footnote same => ?_
      most := fun k => ?_ }
    · rw [← Option.some.inj same]
      exact settled _ (holds.footnote _ reading)
    · have most := holds.most k
      have added := more events k
      simp only [mass, reading, Option.elim_some] at most ⊢
      omega
  next reading =>
    refine { holds with
      out := settled _ holds.out
      most := fun k => ?_ }
    have most := holds.most k
    have added := more state.out k
    simp only [mass] at most ⊢
    omega

theorem push (holds : Holds m n state) (event : Event) (settled : event.Settled m) :
    Holds m (fun k => n k + event.mass m k) (state.push event) := by
  refine holds.mapEvents (fun events all => List.forall_mem_cons.mpr ⟨settled, all⟩) fun events k => ?_
  simp only [massOf, List.map_cons, List.sum_cons]
  omega

/-- A change of one event that leaves its tokens as they are. -/
theorem changeLatest {change? : Event → Option Event} (holds : Holds m n state)
    (settled : ∀ event changed, change? event = some changed → event.Settled m → changed.Settled m)
    (same : ∀ event changed, change? event = some changed → ∀ k, changed.mass m k = event.mass m k) :
    Holds m n (state.mapEvents (changeLatest change?)) := by
  refine holds.mapEvents (p := fun _ => 0) (fun events all => ?_) fun events k => ?_
  · induction events with
    | nil => exact all
    | cons event rest ih =>
      obtain ⟨first, others⟩ := List.forall_mem_cons.mp all
      unfold Draft.changeLatest
      split
      next changed made =>
        exact List.forall_mem_cons.mpr ⟨settled event changed made first, others⟩
      next => exact List.forall_mem_cons.mpr ⟨first, ih others⟩
  · induction events with
    | nil => exact Nat.le_refl _
    | cons event rest ih =>
      unfold Draft.changeLatest
      simp only [massOf, List.map_cons, List.sum_cons] at ih ⊢
      split
      next changed made =>
        rw [List.map_cons, List.sum_cons, same event changed made]
        omega
      next =>
        rw [List.map_cons, List.sum_cons]
        omega

theorem withHeading {heading : Option String} (holds : Holds m n state)
    (silent : ∀ text ∈ heading, Silent m text) : Holds m n { state with heading } :=
  { holds with
    heading := silent
    most := holds.most }

theorem withUsed (holds : Holds m n state) (used : Heading.UsedIds) : Holds m n { state with used } :=
  { holds with most := holds.most }

theorem withImageDepth (holds : Holds m n state) (imageDepth : Nat) :
    Holds m n { state with imageDepth } :=
  { holds with most := holds.most }

theorem endHeading (holds : Holds m n state) : Holds m n state.endHeading := by
  unfold Draft.endHeading
  split
  next => exact holds
  next text reading =>
    have silent := Heading.silent_assign state.used (holds.heading text reading)
    generalize state.used.assign text = assigned at silent
    have closed : Holds m n { state with heading := none, used := assigned.2 } :=
      (holds.withUsed assigned.2).withHeading fun _ absent => by cases absent
    simp only
    split
    next => exact closed
    next id given =>
      refine closed.changeLatest (fun event changed made settled => ?_) fun event changed made k => ?_
      · unfold withId? at made
        split at made
        · rw [← Option.some.inj made]
          intro name same
          rw [← Option.some.inj same]
          exact silent id given
        · cases made
      · unfold withId? at made
        split at made
        · rw [← Option.some.inj made]
          rfl
        · cases made

theorem asTask (holds : Holds m n state) : Holds m n (state.mapEvents (Draft.changeLatest asTask?)) := by
  refine holds.changeLatest (fun event changed made settled => ?_) fun event changed made k => ?_
  · obtain ⟨-, markup, rfl, silent⟩ := asTask?_spec (m := m) made
    exact settled_html_of_silent silent
  · obtain ⟨rfl, markup, rfl, silent⟩ := asTask?_spec (m := m) made
    rw [mass_html_of_silent silent]
    rfl

/-! ## Steps -/

theorem silent_referenceMarkup (number count : Nat) : Silent m (referenceMarkup number count) := by
  unfold referenceMarkup
  simp only
  have numbered := silent_toString (m := m) number
  have id : Silent m (if count == 1 then "fnref-" ++ toString number
      else "fnref-" ++ toString number ++ "-" ++ toString count) := by
    split
    · exact (silent_of_plain (by decide)).append numbered
    · exact (((silent_of_plain (by decide)).append numbered).append (silent_of_plain (by decide))).append
        (silent_toString count)
  exact ((((((silent_of_plain (by decide)).append numbered).append (silent_of_plain (by decide))).append
    id).append (silent_of_plain (by decide))).append numbered).append (silent_of_plain (by decide))

/-- One more reference to a footnote brings in its key at most once. -/
theorem keys_countReference (key : String) (number : Nat) (references : List (String × Nat)) :
    (countReference key number references).1.map Prod.fst =
      if key ∈ references.map Prod.fst then references.map Prod.fst
      else references.map Prod.fst ++ [key] := by
  induction references generalizing number with
  | nil => rfl
  | cons reference rest ih =>
    obtain ⟨other, count⟩ := reference
    unfold countReference
    by_cases same : other = key
    · simp [same]
    · have apart : ¬ key = other := fun equal => same equal.symm
      simp only [beq_iff_eq, same, if_false, List.map_cons, ih, List.mem_cons, apart, false_or]
      split <;> rfl

theorem nodup_countReference {references : List (String × Nat)} (key : String) (number : Nat)
    (distinct : (references.map Prod.fst).Nodup) :
    ((countReference key number references).1.map Prod.fst).Nodup := by
  rw [keys_countReference]
  split
  next => exact distinct
  next fresh =>
    refine List.nodup_append.mpr ⟨distinct, by simp, fun old member new same => ?_⟩
    rw [List.mem_singleton.mp same]
    rintro rfl
    exact fresh member

theorem reference {label : String} (holds : Holds m n state) (whole : m.Tokened label.toList) :
    Holds m (fun k => n k + m.occurrences k label.toList) (state.reference sources label) := by
  unfold Draft.reference
  simp only
  split
  · have distinct := nodup_countReference (footnoteKey label) 1 holds.references
    generalize countReference (footnoteKey label) 1 state.references = counted at distinct
    have referred : Holds m n { state with references := counted.1 } :=
      { holds with
        references := distinct
        most := holds.most }
    have silent := silent_referenceMarkup (m := m) counted.2.1 counted.2.2
    refine (referred.push _ (settled_inlineHtml_of_silent silent)).mono fun k => ?_
    rw [mass_inlineHtml_of_silent silent]
    omega
  · have bears : Bears m (fun k => m.occurrences k label.toList) ("[^" ++ label ++ "]") :=
      ((silent_of_plain (by decide)).appendBears (.own whole)).appendSilent (silent_of_plain (by decide))
    exact (holds.push (.text ("[^" ++ label ++ "]")) bears.tokened).mono fun k =>
      Nat.add_le_add_left (bears.most k) _

theorem endFootnote (holds : Holds m n state) : Holds m n state.endFootnote := by
  unfold Draft.endFootnote
  split
  next => exact holds
  next key events reading =>
    have settled := holds.footnote _ reading
    simp only
    split
    · refine { holds with
        footnote := fun _ absent => by cases absent
        most := fun k => ?_ }
      have most := holds.most k
      simp only [mass, reading, Option.elim_some, Option.elim_none] at most ⊢
      omega
    · refine { holds with
        footnote := fun _ absent => by cases absent
        definitions := fun definition member => ?_
        most := fun k => ?_ }
      · rcases List.mem_append.mp member with old | new
        · exact holds.definitions definition old
        · rw [List.mem_singleton.mp new]
          exact fun event inside => settled event (List.mem_reverse.mp inside)
      · have most := holds.most k
        simp only [mass, reading, Option.elim_some, Option.elim_none, List.map_append, List.map_cons,
          List.map_nil, List.sum_append, List.sum_cons, List.sum_nil, massOf_reverse] at most ⊢
        omega

theorem endCode {block : Code.CodeBlock} (fits : Fits m sources.extraction)
    (keeps : sources.registry.Keeps) (holds : Holds m n state) (reading : state.code = some block) :
    Holds m n (state.endCode sources block) := by
  obtain ⟨info, code⟩ := holds.code block reading
  have bears := Code.Registry.bears_render keeps ⟨block.info, sources.extraction.unmask block.code⟩
    (.own info) (silent_unmask fits code) state.diagrams
  unfold Draft.endCode
  simp only
  generalize sources.registry.render ⟨block.info, sources.extraction.unmask block.code⟩ state.diagrams =
    rendered at bears
  have closed : Holds m (fun k => n k - m.occurrences k block.info.toList)
      { state with code := none, diagrams := rendered.2 } := by
    refine { holds with
      code := fun _ absent => by cases absent
      most := fun k => ?_ }
    have most := holds.most k
    simp only [mass, reading, Option.elim_some, Option.elim_none] at most ⊢
    omega
  refine (closed.push (.html rendered.1) bears.tokened).mono fun k => ?_
  have most := holds.most k
  have added := bears.most k
  simp only [mass, reading, Option.elim_some] at most
  simp only [Event.mass] at added ⊢
  omega

theorem appendHeading {more : String} (holds : Holds m n state) (silent : Silent m more) :
    Holds m n { state with heading := state.heading.map (· ++ more) } := by
  refine holds.withHeading fun text member => ?_
  obtain ⟨old, reading, rfl⟩ := Option.map_eq_some_iff.mp member
  exact (holds.heading old reading).append silent

theorem text {text : String} (fits : Fits m sources.extraction) (holds : Holds m n state)
    (whole : m.Tokened text.toList) :
    Holds m (fun k => n k + m.occurrences k text.toList) (state.text sources text) := by
  have unmasked := silent_unmask fits whole
  have bears : Bears m (fun k => m.occurrences k text.toList)
      (if 0 < state.imageDepth then sources.extraction.unmask text else text) := by
    split
    · exact .of_silent unmasked
    · exact .own whole
  have expanded := bears.of_derived (Shortcode.derived_expand _)
  exact ((holds.appendHeading unmasked).push (.text _) expanded.tokened).mono fun k =>
    Nat.add_le_add_left (expanded.most k) _

theorem openCode {info : String} (holds : Holds m n state) (outside : state.code = none)
    (whole : m.Tokened info.toList) :
    Holds m (fun k => n k + m.occurrences k info.toList) { state with code := some ⟨info, ""⟩ } := by
  refine { holds with
    code := fun block same => ?_
    most := fun k => ?_ }
  · rw [← Option.some.inj same]
    exact ⟨whole, trivial⟩
  · have most := holds.most k
    simp only [mass, outside, Option.elim_none, Option.elim_some] at most ⊢
    omega

theorem openFootnote (holds : Holds m n state) (key : String) :
    Holds m n { state with footnote := some (key, []) } := by
  refine { holds with
    footnote := fun footnote same => ?_
    most := fun k => ?_ }
  · rw [← Option.some.inj same]
    exact fun _ absent => absurd absent List.not_mem_nil
  · have most := holds.most k
    simp only [mass, massOf, List.map_nil, List.sum_nil, Option.elim_some] at most ⊢
    omega

/-- An event outside of code adds its own tokens. -/
theorem stepOutside (fits : Fits m sources.extraction) (holds : Holds m n state)
    (outside : state.code = none) (whole : event.Whole m) :
    Holds m (fun k => n k + event.load m k) (state.stepOutside sources event) := by
  cases event with
  | start tag =>
    cases tag with
    | codeBlock info => exact holds.openCode outside whole
    | heading level id =>
      exact (holds.push (.start (.heading level id)) whole).withHeading fun text same => by
        rw [← Option.some.inj same]
        exact silent_empty
    | footnoteDefinition label => exact holds.openFootnote _
    | link mailbox target => exact holds.push (.start (.link _ _)) (silent_unmask fits whole.2)
    | image target =>
      exact (holds.withImageDepth (state.imageDepth + 1)).push (.start (.image _))
        (silent_unmask fits whole.2)
    | _ => exact holds.push (.start _) trivial
  | stop tag =>
    cases tag with
    | heading => exact holds.endHeading.push (.stop _) trivial
    | footnoteDefinition => exact holds.endFootnote
    | image target =>
      exact (holds.withImageDepth (state.imageDepth - 1)).push (.stop _) trivial
    | _ => exact holds.push (.stop _) trivial
  | text text => exact holds.text fits whole
  | code code =>
    exact (holds.appendHeading (silent_unmask fits whole)).push (.code _) (silent_unmask fits whole)
  | html markup => exact holds.push (.html _) whole
  | inlineHtml markup => exact holds.push (.inlineHtml _) whole
  | softBreak => exact holds.push (.softBreak) trivial
  | hardBreak => exact holds.push (.hardBreak) trivial
  | rule => exact holds.push (.rule) trivial
  | footnoteReference label => exact holds.reference whole
  | taskMarker isChecked => exact holds.asTask.push (.taskMarker _) trivial

/-- An event adds its own tokens. -/
theorem step (fits : Fits m sources.extraction) (keeps : sources.registry.Keeps) (holds : Holds m n state)
    (whole : event.Whole m) :
    Holds m (fun k => n k + event.load m k) (Draft.step sources state event) := by
  cases reading : state.code with
  | none =>
    unfold Draft.step
    simp only [reading]
    exact holds.stepOutside fits reading whole
  | some block =>
    have stays : Holds m (fun k => n k + event.load m k) state := holds.mono fun k => Nat.le_add_right _ _
    have known := holds.code block reading
    unfold Draft.step
    simp only [reading]
    split
    next absent => cases absent
    next other text same =>
      obtain rfl := Option.some.inj same
      refine { stays with
        code := fun longer new => ?_
        most := fun k => ?_ }
      · rw [← Option.some.inj new, String.toList_append]
        exact ⟨known.1, known.2.append whole⟩
      · have most := stays.most k
        simp only [mass, reading, Option.elim_some] at most ⊢
        exact most
    next other info same =>
      obtain rfl := Option.some.inj same
      exact (holds.endCode fits keeps reading).mono fun k => Nat.le_add_right _ _
    next => exact stays

/-- Some events add their own tokens. -/
theorem foldl {events : List Event} (holds : Holds m n state) (sources : Sources)
    (fits : Fits m sources.extraction) (keeps : sources.registry.Keeps)
    (whole : ∀ event ∈ events, event.Whole m) :
    Holds m (fun k => n k + (events.map (Event.load m k)).sum) (events.foldl (Draft.step sources) state) := by
  induction events generalizing state n with
  | nil => exact holds
  | cons event rest ih =>
    have more := ih (holds.step fits keeps (whole event List.mem_cons_self)) fun other member =>
      whole other (List.mem_cons_of_mem _ member)
    simpa only [List.map_cons, List.sum_cons, Nat.add_assoc, List.foldl_cons] using more

end Holds

/-! ## Footnotes at the end -/

theorem allSettled_append {front back : List Event} :
    AllSettled m (front ++ back) ↔ AllSettled m front ∧ AllSettled m back := by
  unfold AllSettled
  simp only [List.mem_append, or_imp, forall_and]

theorem silent_backReference (number : Nat) :
    ∃ markup, backReference number = .inlineHtml markup ∧ Silent m markup :=
  ⟨_, rfl, ((silent_of_plain (by decide)).append (silent_toString number)).append
    (silent_of_plain (by decide))⟩

theorem insertBack?_spec {back : Event} {events found : List Event}
    (inserted : insertBack? back events = some found) :
    (back.Settled m → AllSettled m events → AllSettled m found) ∧
      massOf m k found = back.mass m k + massOf m k events := by
  fun_induction insertBack? back events generalizing found with
  | case1 => cases inserted
  | case2 rest =>
    rw [← Option.some.inj inserted]
    refine ⟨fun settled all => ?_, ?_⟩
    · exact List.forall_mem_cons.mpr ⟨trivial, List.forall_mem_cons.mpr
        ⟨settled, (List.forall_mem_cons.mp all).2⟩⟩
    · simp only [massOf, List.map_cons, List.sum_cons]
      omega
  | case3 event rest _ ih =>
    obtain ⟨later, made, rfl⟩ := Option.map_eq_some_iff.mp inserted
    obtain ⟨settles, adds⟩ := ih made
    refine ⟨fun settled all => ?_, ?_⟩
    · obtain ⟨first, others⟩ := List.forall_mem_cons.mp all
      exact List.forall_mem_cons.mpr ⟨first, settles settled others⟩
    · simp only [massOf, List.map_cons, List.sum_cons] at adds ⊢
      omega

/-- The item of a footnote has the tokens of its events. -/
theorem footnoteItem_spec {events : List Event} (number : Nat) (settled : AllSettled m events) :
    AllSettled m (footnoteItem number events) ∧
      massOf m k (footnoteItem number events) = massOf m k events := by
  have front : Silent m ("<li id=\"fn-" ++ toString number ++ "\">\n") :=
    ((silent_of_plain (by decide)).append (silent_toString number)).append (silent_of_plain (by decide))
  have back : Silent m "</li>\n" := silent_of_plain (by decide)
  obtain ⟨link, same, silent⟩ := silent_backReference (m := m) number
  unfold footnoteItem
  generalize "<li id=\"fn-" ++ toString number ++ "\">\n" = opening at front
  generalize "</li>\n" = closing at back
  rw [same]
  have reversed : AllSettled m events.reverse := fun event inside =>
    settled event (List.mem_reverse.mp inside)
  have body : AllSettled m ((insertBack? (.inlineHtml link) events.reverse).getD
        (.inlineHtml link :: events.reverse)) ∧
      massOf m k ((insertBack? (.inlineHtml link) events.reverse).getD
        (.inlineHtml link :: events.reverse)) = massOf m k events := by
    cases made : insertBack? (.inlineHtml link) events.reverse with
    | none =>
      refine ⟨List.forall_mem_cons.mpr ⟨settled_inlineHtml_of_silent silent, reversed⟩, ?_⟩
      have all := massOf_reverse (m := m) (k := k) events
      simp only [massOf, Option.getD_none, List.map_cons, List.sum_cons, mass_inlineHtml_of_silent silent]
        at all ⊢
      omega
    | some found =>
      obtain ⟨settles, adds⟩ := insertBack?_spec (m := m) (k := k) made
      refine ⟨settles (settled_inlineHtml_of_silent silent) reversed, ?_⟩
      rw [Option.getD_some, adds, mass_inlineHtml_of_silent silent, massOf_reverse, Nat.zero_add]
  simp only
  generalize (insertBack? (.inlineHtml link) events.reverse).getD _ = written at body
  refine ⟨List.forall_mem_cons.mpr ⟨settled_html_of_silent front, allSettled_append.mpr
    ⟨fun event inside => body.1 event (List.mem_reverse.mp inside),
      List.forall_mem_cons.mpr ⟨settled_html_of_silent back, fun _ absent => by cases absent⟩⟩⟩, ?_⟩
  have rest := massOf_append (m := m) (k := k) written.reverse [.html closing]
  have all := massOf_reverse (m := m) (k := k) written
  have total := body.2
  simp only [massOf, List.map_cons, List.map_nil, List.sum_cons, List.sum_nil,
    mass_html_of_silent front, mass_html_of_silent back] at rest all total ⊢
  omega

/-- Looking up distinct keys gives each entry once at most. -/
theorem sum_lookup_le (size : List Event → Nat) (nothing : size [] = 0)
    (definitions : List (String × List Event)) {keys : List String} (distinct : keys.Nodup) :
    (keys.map fun key => size ((definitions.lookup key).getD [])).sum ≤
      (definitions.map fun definition => size definition.2).sum := by
  induction definitions generalizing keys with
  | nil =>
    simp [nothing, List.map_const']
  | cons definition rest ih =>
    obtain ⟨key, events⟩ := definition
    simp only [List.map_cons, List.sum_cons]
    by_cases member : key ∈ keys
    · have moved := (List.perm_cons_erase member).map fun key' =>
        size ((((key, events) :: rest).lookup key').getD [])
      rw [moved.sum_nat, List.map_cons, List.sum_cons, List.lookup_cons_self, Option.getD_some]
      have others : (keys.erase key).map (fun key' => size ((((key, events) :: rest).lookup key').getD [])) =
          (keys.erase key).map fun key' => size ((rest.lookup key').getD []) := by
        refine List.map_congr_left fun key' inside => ?_
        have apart : key' ≠ key := by
          rintro rfl
          exact (List.nodup_cons.mp ((List.perm_cons_erase member).nodup_iff.mp distinct)).1 inside
        rw [List.lookup_cons, beq_false_of_ne apart]
      rw [others]
      exact Nat.add_le_add_left (ih (distinct.erase key)) _
    · have others : keys.map (fun key' => size ((((key, events) :: rest).lookup key').getD [])) =
          keys.map fun key' => size ((rest.lookup key').getD []) := by
        refine List.map_congr_left fun key' inside => ?_
        have apart : key' ≠ key := by
          rintro rfl
          exact member inside
        rw [List.lookup_cons, beq_false_of_ne apart]
      rw [others]
      exact Nat.le_trans (ih distinct) (Nat.le_add_left _ _)

theorem footnoteItems_spec {definitions : List (String × List Event)}
    (settled : ∀ definition ∈ definitions, AllSettled m definition.2) (number : Nat) (keys : List String) :
    AllSettled m (footnoteItems definitions number keys) ∧
      massOf m k (footnoteItems definitions number keys) =
        (keys.map fun key => massOf m k ((definitions.lookup key).getD [])).sum := by
  induction keys generalizing number with
  | nil => exact ⟨fun _ absent => absurd absent List.not_mem_nil, rfl⟩
  | cons key rest ih =>
    obtain ⟨others, total⟩ := ih (number + 1)
    have found : AllSettled m ((definitions.lookup key).getD []) := by
      cases known : definitions.lookup key with
      | none => exact fun _ absent => absurd absent List.not_mem_nil
      | some events =>
        obtain ⟨earlier, later, same, -⟩ := List.lookup_eq_some_iff.mp known
        exact settled (key, events) (by rw [same]; simp)
    obtain ⟨item, same⟩ := footnoteItem_spec (k := k) number found
    unfold footnoteItems
    refine ⟨allSettled_append.mpr ⟨item, others⟩, ?_⟩
    rw [massOf_append, same, total, List.map_cons, List.sum_cons]

/-- With its footnotes at the end a draft has the tokens that it held. -/
theorem Holds.finish (holds : Holds m n state) :
    AllSettled m state.finish ∧ ∀ k, massOf m k state.finish ≤ n k := by
  have closed := holds.endFootnote
  unfold Draft.finish
  simp only
  generalize state.endFootnote = final at closed
  have sectionSpec : AllSettled m final.footnoteSection ∧ ∀ k, massOf m k final.footnoteSection ≤
      (final.definitions.map fun definition => massOf m k definition.2).sum := by
    have front : Silent m "<section class=\"footnotes\">\n<ol>\n" := silent_of_plain (by decide)
    have back : Silent m "</ol>\n</section>\n" := silent_of_plain (by decide)
    unfold footnoteSection
    generalize "<section class=\"footnotes\">\n<ol>\n" = opening at front
    generalize "</ol>\n</section>\n" = closing at back
    split
    · exact ⟨fun _ absent => absurd absent List.not_mem_nil, fun k => Nat.zero_le _⟩
    · refine ⟨List.forall_mem_cons.mpr ⟨settled_html_of_silent front, allSettled_append.mpr
        ⟨(footnoteItems_spec (k := 0) closed.definitions 1 _).1,
          List.forall_mem_cons.mpr ⟨settled_html_of_silent back, fun _ absent => by cases absent⟩⟩⟩,
        fun k => ?_⟩
      have items := (footnoteItems_spec (k := k) closed.definitions 1 (final.references.map Prod.fst)).2
      have less := sum_lookup_le (massOf m k) rfl final.definitions closed.references
      have rest := massOf_append (m := m) (k := k)
        (footnoteItems final.definitions 1 (final.references.map Prod.fst)) [.html closing]
      simp only [massOf, List.map_cons, List.map_nil, List.sum_cons, List.sum_nil,
        mass_html_of_silent front, mass_html_of_silent back] at items less rest ⊢
      omega
  refine ⟨allSettled_append.mpr ⟨fun event inside => closed.out event (List.mem_reverse.mp inside),
    sectionSpec.1⟩, fun k => ?_⟩
  have most := closed.most k
  have last := sectionSpec.2 k
  rw [massOf_append, massOf_reverse]
  simp only [mass] at most
  omega

end Draft

/-- The markup of some events has their tokens, each at most as often as it stands in the events. -/
theorem bears_convertEvents {extraction : Source.Extraction} {registry : Code.Registry}
    (fits : Fits m extraction) (keeps : registry.Keeps) (ids : Diagram.Naming) {events : List Event}
    (whole : ∀ event ∈ events, event.Whole m) :
    Bears m (fun k => (events.map (Event.load m k)).sum)
      (Markdown.write (draftOfEvents extraction registry ids events).finish) := by
  have all := ((Draft.Holds.start ids).foldl ⟨extraction, registry, definedFootnotes events⟩ fits keeps whole).finish
  refine (Markdown.bears_write all.1).mono fun k => Nat.le_trans (all.2 k) ?_
  exact Nat.le_of_eq (Nat.zero_add _)

end Galley
