import Galley.Proofs.Code.Balance
import Galley.Proofs.Conversion.Standing

/-!
# Where tokens go while a document is converted

A draft puts tokens only where markup can stand: what it writes in the text of an image, or in an attribute, has none.

* `Markdown.Event.Harmless` — what an author may write by hand;
* `Draft.Seated` — a draft whose tokens stand where markup can, and `Draft.Seated.step`, how one event keeps it;
* `leads_convertEvents` — the markup of some events.
-/

namespace Galley

open Galley.Markdown (Event Tag Nested)
open Galley.Source (Marking Fits Silent silent_of_plain silent_toString)

variable {m : Marking} {n : Nat → Nat} {sources : Sources} {state : Draft} {event : Event} {depth : Option Nat}
  {stack : List Tag}

/-- What an author writes and the converter does not look into: markup that leads from text to text with
    sentinels between tags only, and the language of a fence without sentinels. Markup in a line may stand in an
    image, so it holds no sentinel. -/
def Markdown.Event.Harmless (sentinel : Char) : Event → Prop
  | .html markup => Leads sentinel (.text 0) markup (.text 0)
  | .inlineHtml markup => Leads sentinel (.text 0) markup (.text 0) ∧ sentinel ∉ markup.toList
  | .start (.codeBlock info) => ∀ language ∈ Code.CodeBlock.language? ⟨info.getD "", ""⟩,
      sentinel ∉ language.toList
  | _ => True

namespace Draft

theorem steady_placed (m : Marking) : Steady (Event.Placed m) where
  heading depth level id id' _ := by cases depth <;> trivial
  task depth placed := by
    cases depth with
    | none => exact ⟨rfl, .fixed _ (by decide) (by decide)⟩
    | some depth => exact placed.elim

/-- A draft that puts no sentinel where no markup can stand. The language of the code that is being read stands in its
markup, so it holds no sentinel. -/
structure Seated (m : Marking) (stack : List Tag) (state : Draft) : Prop extends
    Stands (Event.Placed m) stack state where
  /-- The language of the code. -/
  language : ∀ block ∈ state.code, ∀ language ∈ block.language?, Silent m language

namespace Seated

theorem leads_referenceMarkup (number count : Nat) :
    Leads m.opening (.text 0) (referenceMarkup number count) (.text 0) := by
  have target : Leads m.opening (.text 0) "<sup class=\"footnote-ref\"><a href=\"#fn-" (.value 0) :=
    .fixed _ (by decide) (by decide)
  have id : Leads m.opening (.value 0) (if count == 1 then "fnref-" ++ toString number
      else "fnref-" ++ toString number ++ "-" ++ toString count) (.value 0) := by
    have start : Leads m.opening (.value 0) ("fnref-" ++ toString number) (.value 0) :=
      (Leads.fixed "fnref-" (by decide) (by decide)).append (.number number)
    split
    · exact start
    · exact (start.append (.fixed "-" (by decide) (by decide))).append (.number count)
  have next : Leads m.opening (.value 0) "\" id=\"" (.value 0) := .fixed _ (by decide) (by decide)
  have closes : Leads m.opening (.value 0) "\">" (.text 0) := .fixed _ (by decide) (by decide)
  have digits : Leads m.opening (.text 0) (toString number) (.text 0) :=
    .ofText (Galley.not_mem_toString (by decide) number)
  exact ((((((target.append (.number number)).append next).append id).append closes).append digits).append
    (.fixed "</a></sup>" (by decide) (by decide)))

theorem placed_reference {label : String} (silent : Silent m label) :
    (writtenAs sources state (.footnoteReference label)).Placed m depth := by
  simp only [writtenAs]
  split
  · cases depth with
    | none => exact leads_referenceMarkup _ _
    | some depth => exact Holds.silent_referenceMarkup _ _
  · cases depth with
    | none => trivial
    | some depth => exact ((silent_of_plain (by decide)).append silent).append (silent_of_plain (by decide))

/-- Text that is put in an image has no tokens left. -/
theorem placed_text {t : String} (fits : Fits m sources.extraction) (seated : Seated m stack state)
    (whole : m.Tokened t.toList) : (writtenAs sources state (.text t)).Placed m (depthOf stack) := by
  simp only [writtenAs]
  cases inside : depthOf stack with
  | none => trivial
  | some depth =>
    have inImage : 0 < state.imageDepth := by
      rw [seated.images, images_pos, ← Bool.not_eq_false]
      intro outside
      rw [depthOf_eq_none.mpr outside] at inside
      cases inside
    rw [if_pos inImage]
    exact (Shortcode.derived_expand _).opening_not_mem (silent_unmask fits whole)

theorem placed_start {tag : Tag} (other : tag.isCode = false)
    (between : tag.isInline = false → depth = none) : (Event.start tag).Placed m depth := by
  cases depth with
  | none => cases tag <;> trivial
  | some depth => cases tag <;> first | trivial | cases between rfl

theorem placed_stop {tag : Tag} (other : tag.isCode = false) : (Event.stop tag).Placed m depth := by
  cases depth with
  | none => cases tag <;> trivial
  | some depth => trivial

/-- What is written for one event. -/
theorem placed_written? {stack' : List Tag} (fits : Fits m sources.extraction) (keeps : sources.registry.Keeps)
    (balanced : sources.registry.Balanced) (holds : Holds m n state) (seated : Seated m stack state)
    (turns : Turns stack event stack') (whole : event.Whole m) (harmless : event.Harmless m.opening)
    (labels : ∀ label, event = .footnoteReference label → Silent m label) {written : Event}
    (made : written? sources state event = some written) : written.Placed m (depthOf stack) := by
  unfold written? at made
  cases reading : state.code with
  | some block =>
    rw [reading] at made
    rcases turns.inCode seated.stacked (seated.inside block reading) with ⟨info, rfl, rfl⟩ | ⟨t, rfl, rfl⟩
    · rw [← Option.some.inj made, depthOf_cons, depthOf_of_block seated.stacked rfl]
      exact Code.Registry.leads_render keeps balanced ⟨block.info, sources.extraction.unmask block.code⟩
        (seated.language block reading) (silent_unmask fits (holds.code block reading).2) state.diagrams
    · cases made
  | none =>
    rw [reading] at made
    have started {tag : Tag} (same : event = .start tag) (block : tag.isInline = false) : depthOf stack = none := by
      subst same
      have opened := turns.stacked seated.stacked
      rw [turns.of_start] at opened
      exact depthOf_of_block opened block
    cases event with
    | start tag =>
      cases tag with
      | codeBlock info => cases made
      | footnoteDefinition label => cases made
      | link mailbox target =>
        rw [← Option.some.inj made]
        exact placed_start rfl fun block => by cases block
      | image target =>
        rw [← Option.some.inj made]
        exact placed_start rfl fun block => by cases block
      | _ =>
        rw [← Option.some.inj made]
        exact placed_start rfl (started rfl)
    | stop tag =>
      cases tag with
      | codeBlock info =>
        have outside := seated.outside reading
        rw [turns.of_stop] at outside
        cases outside
      | footnoteDefinition label => cases made
      | _ =>
        rw [← Option.some.inj made]
        exact placed_stop rfl
    | text t =>
      rw [← Option.some.inj made]
      exact seated.placed_text fits whole
    | footnoteReference label =>
      rw [← Option.some.inj made]
      exact placed_reference (labels label rfl)
    | html markup =>
      rw [← Option.some.inj made]
      change Event.Placed m (depthOf stack) (.html markup)
      cases depthOf stack with
      | none => exact harmless
      | some depth => trivial
    | inlineHtml markup =>
      rw [← Option.some.inj made]
      change Event.Placed m (depthOf stack) (.inlineHtml markup)
      cases depthOf stack with
      | none => exact harmless.1
      | some depth => exact harmless.2
    | _ =>
      rw [← Option.some.inj made]
      change Event.Placed m (depthOf stack) _
      cases depthOf stack <;> trivial

/-- One event. -/
theorem step {stack' : List Tag} (fits : Fits m sources.extraction) (keeps : sources.registry.Keeps)
    (balanced : sources.registry.Balanced) (holds : Holds m n state) (seated : Seated m stack state)
    (turns : Turns stack event stack') (whole : event.Whole m) (harmless : event.Harmless m.opening)
    (labels : ∀ label, event = .footnoteReference label → Silent m label) :
    Seated m stack' (Draft.step sources state event) where
  toStands := seated.toStands.step (steady_placed m) turns fun written made =>
    seated.placed_written? fits keeps balanced holds turns whole harmless labels made
  language block member := by
    rcases code_step member with ⟨earlier, reading, same⟩ | ⟨info, rfl, rfl⟩
    · have known := seated.language earlier reading
      unfold Code.CodeBlock.language? at known ⊢
      rwa [same]
    · exact harmless

/-- Nested events leave a draft seated, and no tag open. -/
theorem foldl {events : List Event} (sources : Sources) (fits : Fits m sources.extraction) (keeps : sources.registry.Keeps)
    (balanced : sources.registry.Balanced) (holds : Holds m n state) (seated : Seated m stack state)
    (nested : Nested stack events) (whole : ∀ event ∈ events, event.Whole m)
    (harmless : ∀ event ∈ events, event.Harmless m.opening)
    (labels : ∀ label, .footnoteReference label ∈ events → Silent m label) :
    Seated m [] (events.foldl (Draft.step sources) state) := by
  induction events generalizing state stack n with
  | nil =>
    obtain rfl : stack = [] := nested
    exact seated
  | cons event rest ih =>
    obtain ⟨first, others⟩ := List.forall_mem_cons.mp whole
    obtain ⟨firstHarmless, othersHarmless⟩ := List.forall_mem_cons.mp harmless
    obtain ⟨stack', turns, inner⟩ := turns_of_nested nested
    have next := seated.step fits keeps balanced holds turns first firstHarmless fun label same =>
      labels label (same ▸ List.mem_cons_self)
    exact ih (holds.step fits keeps first) next inner others othersHarmless fun label member =>
      labels label (List.mem_cons_of_mem _ member)

end Seated

theorem framed_placed (m : Marking) : Framed (Event.Placed m) where
  back number depth := by
    have silent : Silent m (" <a href=\"#fnref-" ++ toString number ++ "\" class=\"footnote-backref\">↩</a>") :=
      ((silent_of_plain (by decide)).append (silent_toString number)).append (silent_of_plain (by decide))
    have start : Leads m.opening (.text 0) " <a href=\"#fnref-" (.value 0) := .fixed _ (by decide) (by decide)
    have ends : Leads m.opening (.value 0) "\" class=\"footnote-backref\">↩</a>" (.text 0) :=
      .fixed _ (by decide) (by decide)
    cases depth with
    | none => exact (start.append (.number number)).append ends
    | some depth => exact silent
  itemStart number := by
    have start : Leads m.opening (.text 0) "<li id=\"fn-" (.value 0) := .fixed _ (by decide) (by decide)
    exact (start.append (.number number)).append (.fixed "\">\n" (by decide) (by decide))
  itemEnd := .fixed _ (by decide) (by decide)
  sectionStart := .fixed _ (by decide) (by decide)
  sectionEnd := .fixed _ (by decide) (by decide)

end Draft

/-- Every opening sentinel in the markup of nested events stands between tags and outside of code, if no
    sentinel stands elsewhere in what the author wrote by hand. -/
theorem leads_convertEvents {extraction : Source.Extraction} {registry : Code.Registry}
    (fits : Fits m extraction) (keeps : registry.Keeps) (balanced : registry.Balanced) (ids : Diagram.Naming)
    {events : List Event} (nested : Nested [] events) (whole : ∀ event ∈ events, event.Whole m)
    (harmless : ∀ event ∈ events, event.Harmless m.opening)
    (labels : ∀ label, .footnoteReference label ∈ events → Silent m label) :
    Leads m.opening (.text 0) (Markdown.write (draftOfEvents extraction registry ids events).finish)
      (.text 0) := by
  have holds : Draft.Holds m (fun _ => 0) (.start ids) := .start ids
  have seated : Draft.Seated m [] (.start ids) := by
    refine ⟨.start ids, fun _ absent => ?_⟩
    cases absent
  have settled := (holds.foldl ⟨extraction, registry, definedFootnotes events⟩ fits keeps whole).finish.1
  obtain ⟨placed, ends⟩ := (seated.foldl ⟨extraction, registry, definedFootnotes events⟩ fits keeps balanced holds
    nested whole harmless labels).lists.finish (Draft.framed_placed m)
  have leads := Markdown.leads_write settled placed
  rw [ends] at leads
  exact leads

end Galley
