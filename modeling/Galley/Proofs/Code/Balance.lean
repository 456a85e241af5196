import Galley.Proofs.Code.Rendering
import Galley.Proofs.Markdown.Spots

/-!
# Code in its elements

The markup of a block of code opens elements and closes them again. Nothing in it is a place for markup.

* `Highlighting.Balanced`, `Registry.Balanced` — markup of code that ends where it began;
* `balanced_ofDiagramTag` — that of the usual registry does;
* `Registry.leads_render` — the markup of a block leads from text to text.
-/

namespace Galley.Code

open Galley.Source (Marking Silent)

variable {m : Marking}

/-- Highlighting whose markup ends where it began. It goes into two elements of code. -/
def Highlighting.Balanced (highlighting : Highlighting) : Prop :=
  ∀ code language markup, highlighting.highlight code language = .ok markup →
    (Spot.text 2).after markup.toList = .text 2

/-- All highlighting of a registry ends where it began. -/
def Registry.Balanced (registry : Registry) : Prop :=
  ∀ highlighting, .highlight highlighting ∈ registry.fallback :: registry.handlers.map Prod.snd →
    highlighting.Balanced

theorem not_mem_escapeCodeChar (c : Char) : '<' ∉ escapeCodeChar c := by
  unfold escapeCodeChar Text.escapeAttributeChar
  split
  · decide
  split
  · decide
  · exact not_mem_escapeTextChar c

/-- Code that is marked as plain text ends where it began. -/
theorem after_plainMarkup (code : String) : (Spot.text 2).after (plainMarkup code).toList = .text 2 := by
  unfold plainMarkup
  split
  · rfl
  · have content : '<' ∉ code.toList.flatMap escapeCodeChar := by
      rw [List.mem_flatMap]
      rintro ⟨c, -, written⟩
      exact not_mem_escapeCodeChar c written
    have opens : (Spot.text 2).after "<span class=\"hl-text hl-plain\">".toList = .text 2 := by decide
    have closes : (Spot.text 2).after "</span>".toList = .text 2 := by decide
    rw [String.toList_append, String.toList_append, Spot.after_append, Spot.after_append, opens,
      String.toList_ofList, Spot.after_text content, closes]

theorem balanced_ofDiagramTag (tag : String) : (Registry.ofDiagramTag tag).Balanced := by
  intro highlighting member code language markup made
  obtain rfl := eq_plainHighlighting member
  rw [plainHighlighting_ok made]
  exact after_plainMarkup code

/-- Code is written in elements of code, and those are closed. -/
theorem leads_highlightMarkup {highlighting : Highlighting} {block : CodeBlock} (keeps : highlighting.Keeps)
    (balanced : highlighting.Balanced) (language : ∀ language ∈ block.language?, Silent m language)
    (code : Silent m block.code) :
    Leads m.opening (.text 0) (highlightMarkup highlighting block) (.text 0) := by
  have ends : Leads m.opening (.text 2) "</code></pre>\n" (.text 0) := .fixed _ (by decide) (by decide)
  unfold highlightMarkup
  split
  next =>
    have starts : Leads m.opening (.text 0) "<pre><code class=\"hljs\">" (.text 2) :=
      .fixed _ (by decide) (by decide)
    exact (starts.append (.escapedInCode code)).append ends
  next name found =>
    have starts : Leads m.opening (.text 0) "<pre><code class=\"hljs language-" (.value 2) :=
      .fixed _ (by decide) (by decide)
    have closes : Leads m.opening (.value 2) "\">" (.text 2) := .fixed _ (by decide) (by decide)
    refine (((starts.append (.quoted (language name found))).append closes).append ?_).append ends
    split
    · split
      next made => exact .of_silent (keeps _ _ _ _ made code) (balanced _ _ _ made)
      next => exact .escapedInCode code
    · exact .escapedInCode code

theorem leads_diagramMarkup {id code : String} (idSilent : Silent m id) (silent : Silent m code) :
    Leads m.opening (.text 0) (diagramMarkup id code) (.text 0) := by
  have starts : Leads m.opening (.text 0) "<div class=\"mermaid\" id=\"" (.value 0) :=
    .fixed _ (by decide) (by decide)
  have closes : Leads m.opening (.value 0) "\">" (.text 0) := .fixed _ (by decide) (by decide)
  exact (((starts.append (.quoted idSilent)).append closes).append (.escapedInCode silent)).append
    (.fixed _ (by decide) (by decide))

/-- The markup of a block whose language and code hold no sentinel. -/
theorem Registry.leads_render {registry : Registry} (keeps : registry.Keeps) (balanced : registry.Balanced)
    (block : CodeBlock) (language : ∀ language ∈ block.language?, Silent m language)
    (code : Silent m block.code) (diagrams : PassDiagrams) :
    Leads m.opening (.text 0) (registry.render block diagrams).1 (.text 0) := by
  unfold Registry.render
  simp only
  cases chosen : (block.language?.bind registry.handler?).getD registry.fallback with
  | highlight highlighting =>
    have known := Registry.mem_of_chosen chosen
    exact leads_highlightMarkup (keeps _ known) (balanced _ known) language code
  | diagram => exact leads_diagramMarkup (silent_id _) code

end Galley.Code
