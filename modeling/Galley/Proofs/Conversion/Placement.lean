import Galley.Proofs.Conversion.Forging
import Galley.Proofs.Conversion.Seating

/-!
# Where tokens stand

A token gives way to markup, so it must stand where markup can: between tags, and outside of code.

* `Misplaced` — some token stands where no markup can;
* `Harmless` — what the author wrote by hand brings no token there;
* `not_misplaced` — then no token is misplaced;
* `fence_language_holds_token` — but otherwise some can be.
-/

namespace Galley

open Galley.Source (Extraction Fits Marking)

/-- Some token of the markup stands inside a tag or in code. -/
def Misplaced (extraction : Extraction) (markup : List Char) : Prop :=
  ∃ front rest, markup = front ++ extraction.opening :: rest ∧
    (extraction.tokenAfter? rest).isSome ∧ ((Spot.text 0).after front).isOpen = false

/-- Markup that the author wrote by hand leads from text to text, and neither in its tags nor in the language of a
    fence stands a sentinel. -/
def Harmless (extraction : Extraction) : Prop :=
  ∀ event ∈ Markdown.parse extraction.text, event.Harmless extraction.opening

/-- Without fragments nothing is a token. -/
theorem tokenAfter?_of_no_fragments {extraction : Extraction} (untouched : extraction.fragments = [])
    (cs : List Char) : extraction.tokenAfter? cs = none := by
  unfold Extraction.tokenAfter?
  simp only [untouched]
  split
  · split <;> rfl
  · rfl

/-- The converter puts whole tokens into text only, and takes them out everywhere else. -/
theorem leads_convert {m : Marking} {extraction : Extraction} {registry : Code.Registry}
    (fits : Fits m extraction)
    (tokens : m.Tokened extraction.text.toList ∧ ∀ k, m.occurrences k extraction.text.toList ≤ 1)
    (forgesNothing : ForgesNothing extraction) (harmless : Harmless extraction) (keeps : registry.Keeps)
    (balanced : registry.Balanced) (ids : Diagram.Naming) :
    Leads extraction.opening (.text 0) (convert extraction registry ids).html (.text 0) := by
  unfold ForgesNothing at forgesNothing
  unfold Harmless at harmless
  rw [fits.opening] at forgesNothing harmless ⊢
  have genuine : Markdown.Genuine m extraction.text.toList := ⟨tokens.1, Markdown.unforged_iff.mpr forgesNothing⟩
  obtain ⟨recorded, -⟩ := Markdown.recorded_parse genuine
  exact leads_convertEvents fits keeps balanced ids (Markdown.nested_parse extraction.text)
    (fun event member => (recorded.proper event member).1) harmless
    fun label => Markdown.silent_label genuine tokens.2

/-- No token stands in a tag or in code, if no reference stands for the opening sentinel and what the author wrote
    by hand is harmless. -/
theorem not_misplaced (registry : Code.Registry) (keeps : registry.Keeps) (balanced : registry.Balanced)
    (ids : Diagram.Naming) (source : String) (forgesNothing : ForgesNothing (.ofText source))
    (harmless : Harmless (.ofText source)) :
    ¬ Misplaced (.ofText source) (convert (.ofText source) registry ids).html.toList := by
  rintro ⟨front, rest, split, token, closed⟩
  cases found : Source.freshSentinels? source.toList with
  | none =>
    -- Nothing was taken out, so nothing is a token.
    have untouched := Source.ofText_of_no_sentinels found
    rw [tokenAfter?_of_no_fragments (by rw [untouched])] at token
    cases token
  | some pair =>
    obtain ⟨m, fits, tokens⟩ := Source.fits_ofText found
    have leads := leads_convert fits tokens forgesNothing harmless keeps balanced ids
    rw [leads.placed front rest split] at closed
    cases closed

/-- In a quotation a formula can stand after a fence, and it goes into the class of the code as a token. -/
theorem fence_language_holds_token :
    Misplaced (.ofText "> ~~~$a$\n> x\n> ~~~\n")
      (convert (.ofText "> ~~~$a$\n> x\n> ~~~\n") (.ofDiagramTag usualDiagramLanguage)
        .sequential).html.toList := by
  refine ⟨"<blockquote>\n<pre><code class=\"hljs language-".toList,
    "0\ue001\">x\n</code></pre>\n</blockquote>\n".toList, ?_, ?_, ?_⟩ <;> decide +kernel

end Galley
