import Galley.Proofs.Code.Balance
import Galley.Proofs.Code.DiagramPlaces
import Galley.Proofs.Markdown.Placed
import Galley.Proofs.Session.Rendered

/-!
# Places in the markup of events

A place stands in the markup of events where the markup of a diagram does, and nowhere else: all that the writer puts
down by itself begins no place.

* `Registry.DrawsNothing`, `Registry.exists_drawn` — the places in the markup of code;
* `Event.places`, `Event.Drawn` — the places in an event that is written where it stands;
* `Page.Draws`, `Page.Draws.step` — the places of a page, and those of one more event;
* `laid_write` — the places in the markup of some events.
-/

namespace Galley

open Galley.Diagram (NamedDiagram)
open Placeholder (Apart Clear opening)

/-! ## Markup without places -/

section laid

variable {cs : List Char} {places : List Placeholder}

theorem Laid.append_nil {other : List Char} (front : Laid cs places) (back : Laid other []) :
    Laid (cs ++ other) places := by
  have whole := front.append back
  rwa [List.append_nil] at whole

theorem Laid.nil_append {other : List Char} (front : Laid cs []) (back : Laid other places) :
    Laid (cs ++ other) places :=
  front.append back

/-- Markup in front of a tag. -/
theorem Laid.behind {rest : List Char} (none : ¬ opening <:+: cs) (laid : Laid ('<' :: rest) places) :
    Laid (cs ++ '<' :: rest) places := by
  intro after
  have clear : Clear cs ('<' :: rest ++ after) := Clear.ofNoInfix none (.inr ⟨_, rfl⟩)
  rw [List.append_assoc, placesOf_append_of_clear clear, laid]

end laid

theorem not_mem_escapeAttribute_bracket (text : String) : '<' ∉ (Text.escapeAttribute text).toList := by
  rw [Text.escapeAttribute, String.toList_ofList, List.mem_flatMap]
  rintro ⟨c, -, written⟩
  unfold Text.escapeAttributeChar at written
  split at written
  · exact absurd written (by decide)
  · exact not_mem_escapeTextChar c written

/-- Markup in which no place begins, whatever follows. -/
structure IsBare (markup : String) : Prop where
  /-- No place begins anywhere. -/
  apart : Apart markup.toList

namespace IsBare

variable {markup more : String}

theorem iff_apart : IsBare markup ↔ Apart markup.toList := ⟨apart, fun apart => ⟨apart⟩⟩

instance (markup : String) : Decidable (IsBare markup) := decidable_of_iff _ iff_apart.symm

theorem empty : IsBare "" := ⟨trivial⟩

theorem append (front : IsBare markup) (back : IsBare more) : IsBare (markup ++ more) := by
  rw [iff_apart, String.toList_append]
  exact front.apart.append back.apart

theorem laid (bare : IsBare markup) : Laid markup.toList [] := .ofApart bare.apart

theorem ofNotMem (absent : '<' ∉ markup.toList) : IsBare markup := ⟨.ofNotMem absent⟩

theorem quoted (text : String) : IsBare (Text.escapeAttribute text) := .ofNotMem (not_mem_escapeAttribute_bracket text)

theorem escaped (text : String) : IsBare (Text.escapeText text) := .ofNotMem (not_mem_escapeText text)

theorem address (text : String) : IsBare (Markdown.escapeAddress text) := .ofNotMem (not_mem_escapeAddress (.inl rfl) text)

theorem number (n : Nat) : IsBare (toString n) := .ofNotMem (not_mem_toString (by decide) n)

end IsBare

/-! ## Markup of code -/

namespace Code

/-- No highlighting of a registry writes the start of a place. -/
def Registry.DrawsNothing (registry : Registry) : Prop :=
  ∀ highlighting, .highlight highlighting ∈ registry.fallback :: registry.handlers.map Prod.snd →
    ∀ code language markup, highlighting.highlight code language = .ok markup → ¬ opening <:+: markup.toList

/-- Whether a block with an info text becomes a diagram. -/
def Registry.makesDiagram (registry : Registry) (info : String) : Bool :=
  match ((CodeBlock.language? ⟨info, ""⟩).bind registry.handler?).getD registry.fallback with
  | .highlight _ => false
  | .diagram => true

theorem not_infix_of_bare {markup : String} (bare : IsBare markup) : ¬ opening <:+: markup.toList := by
  rintro ⟨front, back, same⟩
  have suffix : opening ++ back <:+ markup.toList := ⟨front, by rw [← same, List.append_assoc]⟩
  -- a place in the middle would begin at a bracket of the markup
  refine (bare.apart.suffix suffix ?_).1 (List.prefix_append _ _)
  rw [opening, List.cons_append]
  exact List.cons_ne_nil _ _

theorem drawsNothing_ofDiagramTag (tag : String) : (Registry.ofDiagramTag tag).DrawsNothing := by
  intro highlighting member code language markup made
  obtain rfl := eq_plainHighlighting member
  rw [plainHighlighting_ok made]
  refine not_infix_of_bare ?_
  unfold plainMarkup
  split
  · exact .empty
  · have content : IsBare (.ofList (code.toList.flatMap escapeCodeChar)) := by
      rw [IsBare.iff_apart, String.toList_ofList]
      exact .flatMap fun c _ => .ofNotMem (not_mem_escapeCodeChar c)
    have opens : IsBare "<span class=\"hl-text hl-plain\">" := by decide
    have closes : IsBare "</span>" := by decide
    exact (opens.append content).append closes

theorem laid_highlightMarkup {highlighting : Highlighting} {block : CodeBlock}
    (bare : ∀ code language markup, highlighting.highlight code language = .ok markup → ¬ opening <:+: markup.toList) :
    Laid (highlightMarkup highlighting block).toList [] := by
  have ends : IsBare "</code></pre>\n" := by decide
  have whole {body : String} (none : ¬ opening <:+: body.toList) : Laid (body ++ "</code></pre>\n").toList [] := by
    -- a place that is cut short in the body does not go on in the closing tag
    rw [String.toList_append]
    exact .behind none ends.laid
  have text (code : String) := whole (not_infix_of_bare (.escaped code))
  unfold highlightMarkup
  split
  next =>
    have starts : IsBare "<pre><code class=\"hljs\">" := by decide
    rw [String.append_assoc, String.toList_append]
    exact starts.laid.nil_append (text block.code)
  next language _ =>
    have starts : IsBare "<pre><code class=\"hljs language-" := by decide
    have tagEnds : IsBare "\">" := by decide
    have front := (starts.append (.quoted language)).append tagEnds
    simp only
    rw [String.append_assoc, String.toList_append]
    refine front.laid.nil_append ?_
    split
    · split
      next markup made => exact whole (bare _ _ _ made)
      next => exact text block.code
    · exact text block.code

/-- The places in the markup of a block are those of the diagrams that it adds, and it adds one only if its language is
one of diagrams. -/
theorem Registry.exists_drawn {registry : Registry} (draws : registry.DrawsNothing) (block : CodeBlock)
    (diagrams : PassDiagrams) : ∃ new : List NamedDiagram,
      (registry.render block diagrams).2.nodes = diagrams.nodes ++ new ∧
      Laid (registry.render block diagrams).1.toList (new.map NamedDiagram.place) ∧
      (registry.makesDiagram block.info = false → new = []) := by
  unfold Registry.render Registry.makesDiagram
  simp only
  rw [show CodeBlock.language? ⟨block.info, ""⟩ = block.language? from rfl]
  cases chosen : (block.language?.bind registry.handler?).getD registry.fallback with
  | highlight highlighting =>
    refine ⟨[], (List.append_nil _).symm, laid_highlightMarkup (draws _ (mem_of_chosen chosen)), fun _ => rfl⟩
  | diagram =>
    refine ⟨[⟨diagrams.ids.next.1, block.code⟩], ?_, ?_, fun absent => by cases absent⟩
    · simp [PassDiagrams.nodes, Handler.render]
    · have lineBreak : Laid ['\n'] [] := .ofApart (.ofNotMem (by decide))
      have written := toList_diagramMarkup ⟨diagrams.ids.next.1, block.code⟩
      change (Handler.diagram.render block diagrams).1.toList = _ at written
      rw [written]
      exact (Laid.ofPlace (isReadable_place _)).append_nil lineBreak

end Code

namespace Markdown

open Galley.Source (Marking)

/-! ## Events -/

/-- The places in the markup of an event. -/
def Event.places : Event → List Placeholder
  | .html markup => placesOf markup.toList
  | _ => []

/-- An event whose markup has known places where it stands: no block stands in an image. -/
def Event.Drawn : Option Nat → Event → Prop
  | none, .html markup => Laid markup.toList (placesOf markup.toList)
  | some _, .html _ => False
  | none, .inlineHtml markup => IsBare markup
  | some _, .start .item => False
  | _, _ => True

variable {page : Page} {event : Event} {events : List Event} {depth : Option Nat} {places : List Placeholder}

theorem drawn_of_laid {markup : String} (laid : Laid markup.toList places) : Event.Drawn none (.html markup) := by
  rw [Event.Drawn, laid.placesOf_eq]
  exact laid

theorem drawn_of_bare {markup : String} (bare : IsBare markup) : Event.Drawn none (.html markup) := drawn_of_laid bare.laid

theorem places_of_laid {markup : String} (laid : Laid markup.toList places) : (Event.html markup).places = places :=
  laid.placesOf_eq

/-- The markup of a page has the places of the events that were written. -/
structure Page.Draws (page : Page) (places : List Placeholder) (depth : Option Nat) : Prop where
  /-- These are its places. -/
  markup : Laid page.markup.toList places
  /-- So many tags are open in an image. -/
  image : page.image.map Prod.snd = depth

namespace Page.Draws

theorem addLaid {markup : String} {more : List Placeholder} (draws : page.Draws places depth)
    (laid : Laid markup.toList more) : (page.add markup).Draws (places ++ more) depth where
  markup := by
    rw [add_markup, String.toList_append]
    exact draws.markup.append laid
  image := by
    rw [add_image]
    exact draws.image

theorem add {markup : String} (draws : page.Draws places depth) (bare : IsBare markup) :
    (page.add markup).Draws places depth := by
  have more := draws.addLaid bare.laid
  rwa [List.append_nil] at more

theorem addOnLine {markup : String} (draws : page.Draws places depth) (bare : IsBare markup) :
    (page.addOnLine markup).Draws places depth := by
  have lineBreak : IsBare "\n" := by decide
  unfold Page.addOnLine
  split
  · exact draws.add bare
  · exact draws.add (lineBreak.append bare)

theorem of_same {page' : Page} (draws : page.Draws places depth) (markup : page'.markup = page.markup)
    (image : page'.image = page.image) : page'.Draws places depth where
  markup := markup ▸ draws.markup
  image := image ▸ draws.image

theorem withImage {image : Option (LinkTarget × Nat)} (draws : page.Draws places depth) :
    Page.Draws { page with image } places (image.map Prod.snd) := ⟨draws.markup, rfl⟩

/-! ### Tags -/

theorem bare_titleMarkup (target : LinkTarget) : IsBare (titleMarkup target) := by
  have starts : IsBare "\" title=\"" := by decide
  unfold titleMarkup
  split
  · exact .empty
  · exact starts.append (.quoted _)

theorem bare_headingMarkup (level : Nat) (id : Option String) : IsBare (headingMarkup level id) := by
  have starts : IsBare "<h" := by decide
  have ends : IsBare ">" := by decide
  have idStarts : IsBare " id=\"" := by decide
  have idEnds : IsBare "\"" := by decide
  unfold headingMarkup
  refine ((starts.append (.number level)).append ?_).append ends
  cases id with
  | none => exact .empty
  | some id => exact (idStarts.append (.quoted id)).append idEnds

theorem bare_cell (page : Page) (alignment : Option Alignment) :
    IsBare ("<" ++ page.cellName ++ alignmentMarkup alignment) ∧ IsBare ("</" ++ page.cellName ++ ">") := by
  unfold cellName alignmentMarkup
  split <;> split <;> decide

theorem openTag (draws : page.Draws places none) (tag : Tag) :
    (page.openTag tag).Draws places ((Event.start tag).imageAfter none) := by
  cases tag with
  | heading level id => exact draws.addOnLine (bare_headingMarkup level id)
  | list start =>
    cases start with
    | none => exact draws.addOnLine (by decide)
    | some start =>
      have starts : IsBare "<ol start=\"" := by decide
      have ends : IsBare "\">\n" := by decide
      refine draws.addOnLine ?_
      split
      · decide
      · exact (starts.append (.number start)).append ends
  | footnoteDefinition => exact draws
  | table => exact (draws.add (by decide)).of_same rfl rfl
  | tableHead => exact (draws.add (by decide)).of_same rfl rfl
  | tableRow => exact (draws.add (by decide)).of_same rfl rfl
  | tableCell => exact draws.add (bare_cell page _).1
  | link mailbox target =>
    have starts : IsBare ("<a href=\"" ++ if mailbox then "mailto:" else "") := by split <;> decide
    have ends : IsBare "\">" := by decide
    exact draws.add (((starts.append (.address _)).append (bare_titleMarkup target)).append ends)
  | image target =>
    have starts : IsBare "<img src=\"" := by decide
    have between : IsBare "\" alt=\"" := by decide
    exact (draws.add ((starts.append (.address target.destination)).append between)).withImage
  | paragraph => exact draws.addOnLine (by decide)
  | blockQuote => exact draws.addOnLine (by decide)
  | codeBlock => exact draws.addOnLine (by decide)
  | item => exact draws.addOnLine (by decide)
  | emphasis => exact draws.add (by decide)
  | strong => exact draws.add (by decide)
  | strikethrough => exact draws.add (by decide)

theorem closeTag (draws : page.Draws places none) (tag : Tag) : (page.closeTag tag).Draws places none := by
  cases tag with
  | heading level id =>
    have starts : IsBare "</h" := by decide
    have ends : IsBare ">\n" := by decide
    exact draws.add ((starts.append (.number level)).append ends)
  | list start =>
    cases start with
    | none => exact draws.add (by decide)
    | some start => exact draws.add (by decide)
  | footnoteDefinition => exact draws
  | image => exact draws
  | tableHead =>
    have added : (page.add "</tr></thead><tbody>\n").Draws places none := draws.add (by decide)
    exact ⟨added.markup, added.image⟩
  | tableCell =>
    have added := draws.add (bare_cell page none).2
    exact ⟨added.markup, added.image⟩
  | paragraph => exact draws.add (by decide)
  | blockQuote => exact draws.add (by decide)
  | codeBlock => exact draws.add (by decide)
  | item => exact draws.add (by decide)
  | table => exact draws.add (by decide)
  | tableRow => exact draws.add (by decide)
  | emphasis => exact draws.add (by decide)
  | strong => exact draws.add (by decide)
  | strikethrough => exact draws.add (by decide)
  | link => exact draws.add (by decide)

/-! ### Steps -/

/-- Nothing is added. -/
theorem same {more : List Placeholder} (draws : page.Draws places depth) (none : more = []) :
    page.Draws (places ++ more) depth := by
  rwa [none, List.append_nil]

theorem addToImage {target : LinkTarget} {tags : Nat} (draws : page.Draws places (some tags))
    (drawn : event.Drawn (some tags)) :
    (page.addToImage target tags event).Draws (places ++ event.places) (event.imageAfter (some tags)) := by
  have space : IsBare " " := by decide
  cases event with
  | html markup => exact drawn.elim
  | start tag => exact draws.withImage.same rfl
  | stop tag =>
    cases tags with
    | zero =>
      have ends : IsBare "\" />" := by decide
      exact (draws.withImage.add ((bare_titleMarkup target).append ends)).same rfl
    | succ tags =>
      have outer : Page.Draws { page with image := some (target, tags) } places (some tags) := draws.withImage
      exact outer.same rfl
  | text text => cases tags <;> exact (draws.add (.quoted text)).same rfl
  | code code => cases tags <;> exact (draws.add (.quoted code)).same rfl
  | inlineHtml markup => cases tags <;> exact (draws.add (.quoted markup)).same rfl
  | footnoteReference label => cases tags <;> exact draws.same rfl
  | taskMarker isChecked =>
    have box : IsBare (if isChecked then "[x]" else "[ ]") := by split <;> decide
    cases tags <;> exact (draws.add box).same rfl
  | softBreak | hardBreak | rule => cases tags <;> exact (draws.add space).same rfl

/-- One event adds its own places. -/
theorem step (draws : page.Draws places depth) (drawn : event.Drawn depth) :
    (page.step event).Draws (places ++ event.places) (event.imageAfter depth) := by
  have image := draws.image
  unfold Page.step
  cases inside : page.image with
  | some open' =>
    -- within an image all markup is read as text
    obtain ⟨target, tags⟩ := open'
    rw [inside] at image
    subst image
    exact draws.addToImage drawn
  | none =>
    rw [inside] at image
    subst image
    cases event with
    | html markup => exact draws.addLaid drawn
    | start tag => exact (draws.openTag tag).same rfl
    | stop tag => exact (draws.closeTag tag).same rfl
    | text text => exact (draws.add (.escaped text)).same rfl
    | code code =>
      have starts : IsBare "<code>" := by decide
      have ends : IsBare "</code>" := by decide
      exact (draws.add ((starts.append (.escaped code)).append ends)).same rfl
    | inlineHtml markup => exact (draws.add drawn).same rfl
    | softBreak => exact (draws.add (by decide)).same rfl
    | hardBreak => exact (draws.add (by decide)).same rfl
    | rule => exact (draws.addOnLine (by decide)).same rfl
    | footnoteReference label => exact draws.same rfl
    | taskMarker isChecked =>
      refine Page.Draws.same (draws.add ?_) rfl
      split <;> decide

theorem foldl (draws : page.Draws places depth) (drawn : AllFrom (fun depth event => event.Drawn depth) depth events) :
    (events.foldl Page.step page).Draws (places ++ events.flatMap Event.places) (imageAfterAll depth events) := by
  induction events generalizing page places depth with
  | nil =>
    rw [List.flatMap_nil, List.append_nil]
    exact draws
  | cons event rest ih =>
    rw [List.flatMap_cons, ← List.append_assoc]
    exact ih (draws.step drawn.1) drawn.2

end Page.Draws

/-- The places in the markup of some events are those of the events. -/
theorem laid_write (drawn : AllFrom (fun depth event => event.Drawn depth) none events) :
    Laid (write events).toList (events.flatMap Event.places) := by
  have start : Page.empty.Draws [] none := ⟨.nil, rfl⟩
  exact (start.foldl drawn).markup

end Markdown
end Galley
