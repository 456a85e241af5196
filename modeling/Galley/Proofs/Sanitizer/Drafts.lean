import Galley.Proofs.Code.Balance
import Galley.Proofs.Conversion.Seating
import Galley.Proofs.Sanitizer.Writing

/-!
# Drafts that are allowed

While a document is converted, markup of its own takes the place of code, of references to footnotes and of items with a
box. All of it is written in the vocabulary of pages.

* `HighlightsWritten`, `reads_render` — code that is highlighted with allowed markup, and the markup of a block;
* `Plain` — what a document may say;
* `DraftCovered`, `DraftCovered.step` — a draft that keeps to the vocabulary, and how one event keeps it;
* `DraftCovered.finish`, `reads_convert` — all events, with the footnotes at the end, and their markup.
-/

namespace Galley.Sanitizer

open Galley.Html (Reads Stage valueOf)
open Galley.Markdown (Event Tag)

/-! ## Addresses within the page -/

section fragments

variable {tag attr : String} {front : List Char}

theorem isSafe_fragment {more : List Char} (plain : '\x22' ∉ more) :
    written.values "a" "href" (.ofList (valueOf ('#' :: more))) = true := by
  have whole : '\x22' ∉ '#' :: more := by simpa using plain
  have itself : Html.firstOf '#' more = (['#'], more) := rfl
  rw [Html.valueOf_cons whole, itself]
  simp only [written, Bool.and_eq_true]
  exact ⟨by decide, isSafeAddress_fragment _⟩

/-- The rest of an address without quotes and line breaks. -/
theorem reads_counted {text : String} (plain : '\x22' ∉ text.toList) (noBreak : '\r' ∉ text.toList) :
    Reads written (.counted tag attr front.reverse) text (.counted tag attr (front ++ text.toList).reverse) := by
  unfold Reads
  rw [List.reverse_append]
  exact Stage.after?_counted plain noBreak

/-- The end of an address within the page, and what follows it in the tag. -/
theorem reads_fragmentEnd {more : List Char} {markup : String} {stop : Stage} (plain : '\x22' ∉ more)
    (reads : Reads written (.inside "a") markup stop) :
    Reads written (.counted "a" "href" ('#' :: more).reverse) ("\x22" ++ markup) stop :=
  reads_close (isSafe_fragment plain) reads

end fragments

/-! ## Markup of code -/

/-- All highlighting of a registry writes markup in the vocabulary of pages. -/
def HighlightsWritten (registry : Code.Registry) : Prop :=
  ∀ highlighting, .highlight highlighting ∈ registry.fallback :: registry.handlers.map Prod.snd →
    ∀ code language markup, highlighting.highlight code language = .ok markup → Reads written .text markup .text

theorem highlightsWritten_ofDiagramTag (tag : String) : HighlightsWritten (.ofDiagramTag tag) := by
  intro highlighting member code language markup made
  obtain rfl := Code.eq_plainHighlighting member
  rw [Code.plainHighlighting_ok made]
  unfold Code.plainMarkup
  split
  · exact .empty _
  · have content : '<' ∉ (String.ofList (code.toList.flatMap Code.escapeCodeChar)).toList := by
      rw [String.toList_ofList, List.mem_flatMap]
      rintro ⟨c, -, written⟩
      exact Code.not_mem_escapeCodeChar c written
    have opens : Reads written .text "<span class=\"hl-text hl-plain\">" .text := by decide
    have closes : Reads written .text "</span>" .text := by decide
    exact (opens.append (.ofText content)).append closes

theorem reads_render {registry : Code.Registry} (highlights : HighlightsWritten registry) (block : Code.CodeBlock)
    (diagrams : Code.PassDiagrams) : Reads written .text (registry.render block diagrams).1 .text := by
  have ends : Reads written .text "</code></pre>\n" .text := by decide
  unfold Code.Registry.render
  simp only
  cases chosen : (block.language?.bind registry.handler?).getD registry.fallback with
  | highlight highlighting =>
    have known := Code.Registry.mem_of_chosen chosen
    unfold Code.Handler.render Code.highlightMarkup
    simp only
    split
    next =>
      have opens : Reads written .text "<pre><code class=\"hljs\">" .text := by decide
      exact (opens.append (reads_escaped _)).append ends
    next language _ =>
      have opens : Reads written .text "<pre><code class=\"hljs language-" (.value "code") := by decide
      have closes : Reads written (.value "code") "\">" .text := by decide
      refine (((opens.append (reads_quoted _)).append closes).append ?_).append ends
      -- Code that is not highlighted is escaped.
      split
      · split
        next made => exact highlights _ known _ _ _ made
        next => exact reads_escaped _
      · exact reads_escaped _
  | diagram =>
    have opens : Reads written .text "<div class=\"mermaid\" id=\"" (.value "div") := by decide
    have closes : Reads written (.value "div") "\">" .text := by decide
    have tail : Reads written .text "</div>\n" .text := by decide
    exact (((opens.append (reads_quoted _)).append closes).append (reads_escaped _)).append tail

/-! ## References to footnotes -/

/-- A number goes on with an address within the page. -/
theorem reads_fragmentNumber {front : List Char} (number : Nat) :
    Reads written (.counted "a" "href" front.reverse) (toString number)
      (.counted "a" "href" (front ++ (toString number).toList).reverse) :=
  reads_counted (not_mem_toString (by decide) number) (not_mem_toString (by decide) number)

theorem reads_referenceMarkup (number count : Nat) : Reads written .text (Draft.referenceMarkup number count) .text := by
  have opens : Reads written .text "<sup class=\"footnote-ref\"><a href=\"#fn-" (.counted "a" "href" "#fn-".toList.reverse) := by
    decide
  have plain : '\x22' ∉ "fn-".toList ++ (toString number).toList := by
    rw [List.mem_append, not_or]
    exact ⟨by decide, not_mem_toString (by decide) number⟩
  have closes : Reads written (.counted "a" "href" ("#fn-".toList ++ (toString number).toList).reverse) "\" id=\""
      (.value "a") := by
    have split : "\" id=\"" = "\"" ++ " id=\"" := by decide
    rw [split]
    exact reads_fragmentEnd plain (by decide)
  have id : Reads written (.value "a") (if count == 1 then "fnref-" ++ toString number
      else "fnref-" ++ toString number ++ "-" ++ toString count) (.value "a") := by
    have name : Reads written (.value "a") ("fnref-" ++ toString number) (.value "a") :=
      (Reads.inValue (by decide)).append (reads_number number)
    split
    · exact name
    · exact (name.append (.inValue (by decide))).append (reads_number count)
  have tagEnd : Reads written (.value "a") "\">" .text := by decide
  have shown : Reads written .text (toString number) .text := .ofText (not_mem_toString (by decide) number)
  have ends : Reads written .text "</a></sup>" .text := by decide
  unfold Draft.referenceMarkup
  exact (((((opens.append (reads_fragmentNumber number)).append closes).append id).append tagEnd).append shown).append ends

theorem covered_backReference (number : Nat) : Covered (Draft.backReference number) := by
  have opens : Reads written .text " <a href=\"#fnref-" (.counted "a" "href" "#fnref-".toList.reverse) := by decide
  have plain : '\x22' ∉ "fnref-".toList ++ (toString number).toList := by
    rw [List.mem_append, not_or]
    exact ⟨by decide, not_mem_toString (by decide) number⟩
  have split : "\" class=\"footnote-backref\">↩</a>" = "\"" ++ " class=\"footnote-backref\">↩</a>" := by decide
  unfold Draft.backReference Covered
  rw [split]
  exact (opens.append (reads_fragmentNumber number)).append (reads_fragmentEnd plain (by decide))

/-! ## Drafts -/

/-- What a document may say: no markup of its own, no column that is set, no token in the language of a fence, and only
    addresses that may stand in a page. -/
def Plain (extraction : Source.Extraction) : Event → Prop
  | .html _ => False
  | .inlineHtml _ => False
  | .start (.codeBlock info) => ∀ language ∈ Code.CodeBlock.language? ⟨info.getD "", ""⟩,
      extraction.opening ∉ language.toList
  | .start (.table columns) => ∀ column ∈ columns, column = .unset
  | .start (.link mailbox target) => IsSafeDestination mailbox (extraction.unmask target.destination)
  | .start (.image target) => IsSafeDestination false (extraction.unmask target.destination)
  | _ => True

instance decidablePlain (extraction : Source.Extraction) : (event : Event) → Decidable (Plain extraction event)
  | .html _ | .inlineHtml _ => instDecidableFalse
  | .start (.codeBlock _) => inferInstanceAs (Decidable (∀ _ ∈ _, _))
  | .start (.table _) => inferInstanceAs (Decidable (∀ _ ∈ _, _))
  | .start (.link _ _) => inferInstanceAs (Decidable (_ = _))
  | .start (.image _) => inferInstanceAs (Decidable (_ = _))
  | .start .paragraph | .start (.heading _ _) | .start .blockQuote | .start (.list _) | .start .item
  | .start (.footnoteDefinition _) | .start .tableHead | .start .tableRow | .start .tableCell | .start .emphasis
  | .start .strong | .start .strikethrough | .stop _ | .text _ | .code _ | .softBreak | .hardBreak | .rule
  | .footnoteReference _ | .taskMarker _ => instDecidableTrue

/-- What a plain document says brings no token where no markup can stand. -/
theorem harmless_of_plain {extraction : Source.Extraction} {event : Event} (plain : Plain extraction event) :
    event.Harmless extraction.opening := by
  cases event with
  | html => exact plain.elim
  | inlineHtml => exact plain.elim
  | start tag =>
    cases tag with
    | codeBlock info => exact plain
    | _ => trivial
  | _ => trivial

/-- All events of a draft keep to the vocabulary of pages. -/
structure DraftCovered (state : Draft) : Prop where
  /-- Those that have been written. -/
  out : ∀ event ∈ state.out, Covered event
  /-- Those of the footnote that is being read. -/
  footnote : ∀ footnote ∈ state.footnote, ∀ event ∈ footnote.2, Covered event
  /-- Those of the footnotes that have been read. -/
  definitions : ∀ definition ∈ state.definitions, ∀ event ∈ definition.2, Covered event

namespace DraftCovered

variable {state : Draft} {sources : Sources} {event : Event} {events : List Event}

theorem of_same {other : Draft} (covered : DraftCovered state) (out : other.out = state.out)
    (footnote : other.footnote = state.footnote) (definitions : other.definitions = state.definitions) :
    DraftCovered other := by
  refine ⟨?_, ?_, ?_⟩
  · rw [out]
    exact covered.out
  · rw [footnote]
    exact covered.footnote
  · rw [definitions]
    exact covered.definitions

theorem mapEvents {f : List Event → List Event} (covered : DraftCovered state)
    (change : ∀ events, (∀ event ∈ events, Covered event) → ∀ event ∈ f events, Covered event) :
    DraftCovered (state.mapEvents f) := by
  unfold Draft.mapEvents
  split
  next key events reading =>
    refine ⟨covered.out, ?_, covered.definitions⟩
    intro footnote member
    obtain rfl := Option.some.inj member
    exact change events (covered.footnote _ reading)
  next => exact ⟨change _ covered.out, covered.footnote, covered.definitions⟩

theorem push (covered : DraftCovered state) (own : Covered event) : DraftCovered (state.push event) :=
  covered.mapEvents fun _ others => List.forall_mem_cons.mpr ⟨own, others⟩

/-- One event is changed. -/
theorem changeLatest {change? : Event → Option Event}
    (change : ∀ event changed, change? event = some changed → Covered event → Covered changed)
    (covered : ∀ event ∈ events, Covered event) : ∀ event ∈ Draft.changeLatest change? events, Covered event := by
  induction events with
  | nil => exact covered
  | cons event rest ih =>
    obtain ⟨first, others⟩ := List.forall_mem_cons.mp covered
    unfold Draft.changeLatest
    split
    next changed made => exact List.forall_mem_cons.mpr ⟨change event changed made first, others⟩
    next => exact List.forall_mem_cons.mpr ⟨first, ih others⟩

theorem covered_withId? {id : String} {changed : Event} (made : Draft.withId? id event = some changed)
    (covered : Covered event) : Covered changed := by
  unfold Draft.withId? at made
  split at made
  · obtain rfl := Option.some.inj made
    exact covered
  · cases made

theorem covered_asTask? {changed : Event} (made : Draft.asTask? event = some changed) : Covered changed := by
  unfold Draft.asTask? at made
  split at made
  · obtain rfl := Option.some.inj made
    have item : Reads written .text "<li class=\"task-list-item\">" .text := by decide
    exact item
  · cases made

theorem endHeading (covered : DraftCovered state) : DraftCovered state.endHeading := by
  unfold Draft.endHeading
  split
  next => exact covered
  next text _ =>
    generalize state.used.assign text = assigned
    have closed : DraftCovered { state with heading := none, used := assigned.2 } := covered.of_same rfl rfl rfl
    simp only
    split
    next => exact closed
    next id _ => exact closed.mapEvents fun _ => changeLatest fun _ _ => covered_withId?

theorem endCode (covered : DraftCovered state) (highlights : HighlightsWritten sources.registry)
    (block : Code.CodeBlock) : DraftCovered (state.endCode sources block) := by
  have reads := reads_render highlights ⟨block.info, sources.extraction.unmask block.code⟩ state.diagrams
  unfold Draft.endCode
  simp only
  generalize sources.registry.render ⟨block.info, sources.extraction.unmask block.code⟩ state.diagrams = rendered at reads
  have closed : DraftCovered { state with code := none, diagrams := rendered.2 } := covered.of_same rfl rfl rfl
  exact closed.push reads

theorem reference (covered : DraftCovered state) (label : String) : DraftCovered (state.reference sources label) := by
  unfold Draft.reference
  simp only
  split
  · generalize Draft.countReference (Draft.footnoteKey label) 1 state.references = counted
    have noted : DraftCovered { state with references := counted.1 } := covered.of_same rfl rfl rfl
    exact noted.push (reads_referenceMarkup _ _)
  · exact covered.push trivial

theorem endFootnote (covered : DraftCovered state) : DraftCovered state.endFootnote := by
  unfold Draft.endFootnote
  split
  next => exact covered
  next key events reading =>
    have own : ∀ event ∈ events, Covered event := covered.footnote _ reading
    have none : ∀ footnote ∈ (none : Option (String × List Event)), ∀ event ∈ footnote.2, Covered event := by
      intro _ absent
      cases absent
    simp only
    split
    · exact ⟨covered.out, none, covered.definitions⟩
    · refine ⟨covered.out, none, List.forall_mem_append.mpr ⟨covered.definitions, ?_⟩⟩
      intro definition member event inside
      rw [List.mem_singleton.mp member] at inside
      exact own event (List.mem_reverse.mp inside)

theorem text (covered : DraftCovered state) (text : String) : DraftCovered (state.text sources text) := by
  unfold Draft.text
  simp only
  generalize state.heading.map (· ++ sources.extraction.unmask text) = heading
  have named : DraftCovered { state with heading } := covered.of_same rfl rfl rfl
  exact named.push trivial

theorem stepOutside (covered : DraftCovered state) (graded : event.Graded)
    (plain : Plain sources.extraction event) : DraftCovered (state.stepOutside sources event) := by
  cases event with
  | start tag =>
    cases tag with
    | codeBlock info => exact covered.of_same rfl rfl rfl
    | heading level id =>
      have pushed := @push _ (.start (.heading level id)) covered graded
      exact pushed.of_same rfl rfl rfl
    | footnoteDefinition label =>
      refine ⟨covered.out, ?_, covered.definitions⟩
      intro footnote member
      obtain rfl := Option.some.inj member
      exact fun _ absent => absurd absent List.not_mem_nil
    | image target =>
      have counted : DraftCovered { state with imageDepth := state.imageDepth + 1 } := covered.of_same rfl rfl rfl
      exact counted.push plain
    | link mailbox target => exact covered.push plain
    | table columns => exact covered.push plain
    | _ => exact covered.push trivial
  | stop tag =>
    cases tag with
    | heading level id => exact covered.endHeading.push graded
    | footnoteDefinition label => exact covered.endFootnote
    | image target =>
      have counted : DraftCovered { state with imageDepth := state.imageDepth - 1 } := covered.of_same rfl rfl rfl
      exact counted.push trivial
    | _ => exact covered.push trivial
  | text text => exact covered.text text
  | code code =>
    have named : DraftCovered { state with heading := state.heading.map (· ++ sources.extraction.unmask code) } :=
      covered.of_same rfl rfl rfl
    exact named.push trivial
  | html markup => exact plain.elim
  | inlineHtml markup => exact plain.elim
  | footnoteReference label => exact covered.reference label
  | taskMarker isChecked =>
    have marked : DraftCovered (state.mapEvents (Draft.changeLatest Draft.asTask?)) :=
      covered.mapEvents fun _ => changeLatest fun _ _ made _ => covered_asTask? made
    exact marked.push trivial
  | _ => exact covered.push trivial

theorem step (covered : DraftCovered state) (highlights : HighlightsWritten sources.registry) (graded : event.Graded)
    (plain : Plain sources.extraction event) : DraftCovered (Draft.step sources state event) := by
  unfold Draft.step
  split
  next => exact covered.stepOutside graded plain
  next => exact covered.of_same rfl rfl rfl
  next block _ _ => exact covered.endCode highlights block
  next => exact covered

theorem foldl (covered : DraftCovered state) (highlights : HighlightsWritten sources.registry)
    (graded : ∀ event ∈ events, event.Graded) (plain : ∀ event ∈ events, Plain sources.extraction event) :
    DraftCovered (events.foldl (Draft.step sources) state) := by
  induction events generalizing state with
  | nil => exact covered
  | cons event rest ih =>
    obtain ⟨first, others⟩ := List.forall_mem_cons.mp graded
    obtain ⟨firstPlain, othersPlain⟩ := List.forall_mem_cons.mp plain
    exact ih (covered.step highlights first firstPlain) others othersPlain

/-! ## Footnotes at the end -/

theorem insertBack? {back : Event} {found : List Event} (own : Covered back)
    (covered : ∀ event ∈ events, Covered event) (made : Draft.insertBack? back events = some found) :
    ∀ event ∈ found, Covered event := by
  induction events generalizing found with
  | nil => cases made
  | cons event rest ih =>
    obtain ⟨first, others⟩ := List.forall_mem_cons.mp covered
    unfold Draft.insertBack? at made
    split at made
    next => cases made
    next _ same =>
      obtain ⟨rfl, rfl⟩ := List.cons.inj same
      rw [← Option.some.inj made]
      simp only [List.forall_mem_cons]
      exact ⟨first, own, others⟩
    next _ _ _ same =>
      obtain ⟨rfl, rfl⟩ := List.cons.inj same
      obtain ⟨tail, deeper, rfl⟩ := Option.map_eq_some_iff.mp made
      exact List.forall_mem_cons.mpr ⟨first, ih others deeper⟩

theorem footnoteItem (number : Nat) (covered : ∀ event ∈ events, Covered event) :
    ∀ event ∈ Draft.footnoteItem number events, Covered event := by
  have opens : Reads written .text ("<li id=\"fn-" ++ toString number ++ "\">\n") .text := by
    have start : Reads written .text "<li id=\"fn-" (.value "li") := by decide
    have tagEnd : Reads written (.value "li") "\">\n" .text := by decide
    exact (start.append (reads_number number)).append tagEnd
  have closes : Reads written .text "</li>\n" .text := by decide
  have back := covered_backReference number
  have reversed : ∀ event ∈ events.reverse, Covered event := fun event member => covered event (List.mem_reverse.mp member)
  have body : ∀ event ∈ ((Draft.insertBack? (Draft.backReference number) events.reverse).getD
      (Draft.backReference number :: events.reverse)).reverse, Covered event := by
    intro event member
    rw [List.mem_reverse] at member
    cases made : Draft.insertBack? (Draft.backReference number) events.reverse with
    | none =>
      rw [made] at member
      exact (List.forall_mem_cons.mpr ⟨back, reversed⟩) event member
    | some found =>
      rw [made] at member
      exact insertBack? back reversed made event member
  unfold Draft.footnoteItem
  exact List.forall_mem_cons.mpr ⟨opens, List.forall_mem_append.mpr ⟨body, List.forall_mem_singleton.mpr closes⟩⟩

theorem footnoteItems {definitions : List (String × List Event)}
    (covered : ∀ definition ∈ definitions, ∀ event ∈ definition.2, Covered event) (number : Nat) (keys : List String) :
    ∀ event ∈ Draft.footnoteItems definitions number keys, Covered event := by
  induction keys generalizing number with
  | nil => exact fun _ absent => absurd absent List.not_mem_nil
  | cons key rest ih =>
    unfold Draft.footnoteItems
    refine List.forall_mem_append.mpr ⟨footnoteItem number ?_, ih (number + 1)⟩
    cases known : definitions.lookup key with
    | none => exact fun _ absent => absurd absent List.not_mem_nil
    | some events =>
      obtain ⟨earlier, later, same, -⟩ := List.lookup_eq_some_iff.mp known
      exact covered (key, events) (by simp [same])

/-- All events of a draft, with its footnotes at the end. -/
theorem finish (covered : DraftCovered state) : ∀ event ∈ state.finish, Covered event := by
  have closed := covered.endFootnote
  unfold Draft.finish
  simp only
  generalize state.endFootnote = final at closed
  have out : ∀ event ∈ final.out.reverse, Covered event := fun event member => closed.out event (List.mem_reverse.mp member)
  refine List.forall_mem_append.mpr ⟨out, ?_⟩
  unfold Draft.footnoteSection
  split
  · exact fun _ absent => absurd absent List.not_mem_nil
  · have opens : Reads written .text "<section class=\"footnotes\">\n<ol>\n" .text := by decide
    have closes : Reads written .text "</ol>\n</section>\n" .text := by decide
    have items := footnoteItems closed.definitions 1 (final.references.map Prod.fst)
    exact List.forall_mem_cons.mpr ⟨opens, List.forall_mem_append.mpr ⟨items, List.forall_mem_singleton.mpr closes⟩⟩

end DraftCovered

/-- A plain document is converted to markup in the vocabulary of pages. -/
theorem reads_convert {extraction : Source.Extraction} {registry : Code.Registry} (highlights : HighlightsWritten registry)
    (ids : Diagram.Naming) (plain : ∀ event ∈ Markdown.parse extraction.text, Plain extraction event) :
    ∃ stop : Stage, stop.isEnd = true ∧ Reads written .text (convert extraction registry ids).html stop := by
  have start : DraftCovered (.start ids) := by
    refine ⟨?_, ?_, ?_⟩ <;> intro _ absent <;> cases absent
  apply reads_write
  apply DraftCovered.finish
  exact start.foldl highlights (Markdown.graded_parse extraction.text) plain

end Galley.Sanitizer
