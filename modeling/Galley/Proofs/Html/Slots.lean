import Galley.Code.Registry
import Galley.Diagram.Error
import Galley.Heading.Contents
import Galley.Math.Markup
import Galley.Proofs.Html.Parts
import Galley.Proofs.Markdown.Spots

/-!
# What an author writes stays in its slot

The markup that is written around formulas, headings, diagrams and code has slots for what the author wrote. Whatever stands
in them, the tags are those of the template, and each slot says what was put into it.

* `errorParts`, `formulaParts` — a formula, or the marker of one that cannot be typeset;
* `contentsParts` — the table of contents, without the tags that nest its lists;
* `diagramErrorParts`, `placeParts` — a diagram without a picture, and the place of one;
* `codeParts` — code that is not highlighted;
* `consistsOf_templates` — all of them, for every text.
-/

namespace Galley.Html

open Galley.Code (CodeBlock Handler Highlighting PassDiagrams)
open Galley.Heading (ContentsEntry contentsMarkup)
open Galley.Math (FormulaError)
open Galley.Source (Formula Standing)

/-! ## Formulas -/

/-- The marker of a formula that cannot be typeset. -/
def errorParts (source : String) (error : FormulaError) : List Part :=
  .start "span" [("class", "math-error"), ("title", error.message)] :: (Part.ofText source ++ [.stop "span"])

/-- A formula between the delimiters of a typesetter in the browser. -/
def typesetParts (tex : String) (display : Bool) : List Part :=
  if display then [.start "span" [("class", "math math-display")], .text ("\\[" ++ tex ++ "\\]"), .stop "span"]
  else [.start "span" [("class", "math math-inline")], .text ("\\(" ++ tex ++ "\\)"), .stop "span"]

/-- A formula in its place. What is typeset has no blanks around it. -/
def formulaParts (formula : Formula) (source : String) (standing : Standing) : List Part :=
  let tex := String.ofList (Text.trim formula.tex.toList)
  match Math.check tex with
  | .ok () =>
    if formula.display && standing == .standalone then
      .start "div" [("class", "math-block")] :: (typesetParts tex formula.display ++ [.stop "div"])
    else typesetParts tex formula.display
  | .error error =>
    if standing == .standalone then .start "p" [] :: (errorParts source error ++ [.stop "p"])
    else errorParts source error

theorem closes_span : Closes "</span>" [.stop "span"] := fun _ => ⟨rfl⟩

theorem takes_errorMarkup (source : String) (error : FormulaError) :
    Takes (.text []) (Math.errorMarkup source error) (.text []) (errorParts source error) := by
  have opens : Takes (.text []) "<span class=\"math-error\" title=\""
      (.value "span" [("class", "math-error")] "title" "".toList.reverse) [] := by decide
  have title := Takes.lastAttribute "span" [("class", "math-error")] "title" "" (by decide) error.message
  have whole := (opens.append title).append (.alone closes_span source)
  rw [← String.append_assoc, ← String.append_assoc] at whole
  exact whole

theorem takes_typeset (tex : String) (display : Bool) :
    Takes (.text []) (if display then "<span class=\"math math-display\">\\[" ++ Text.escapeText tex ++ "\\]</span>"
      else "<span class=\"math math-inline\">\\(" ++ Text.escapeText tex ++ "\\)</span>") (.text [])
      (typesetParts tex display) := by
  unfold typesetParts
  split_ifs
  · have opens : Takes (.text []) "<span class=\"math math-display\">" (.text [])
        [.start "span" [("class", "math math-display")]] := by decide
    have split : "<span class=\"math math-display\">\\[" = "<span class=\"math math-display\">" ++ "\\[" := by decide
    have splitEnd : "\\]</span>" = "\\]" ++ "</span>" := by decide
    have whole := Takes.framed "\\[" "\\]" opens closes_span (by decide) (by decide) tex
    rw [Part.ofText_of_ne (by simp)] at whole
    rw [split, splitEnd, String.append_assoc, String.append_assoc]
    exact whole
  · have opens : Takes (.text []) "<span class=\"math math-inline\">" (.text [])
        [.start "span" [("class", "math math-inline")]] := by decide
    have split : "<span class=\"math math-inline\">\\(" = "<span class=\"math math-inline\">" ++ "\\(" := by decide
    have splitEnd : "\\)</span>" = "\\)" ++ "</span>" := by decide
    have whole := Takes.framed "\\(" "\\)" opens closes_span (by decide) (by decide) tex
    rw [Part.ofText_of_ne (by simp)] at whole
    rw [split, splitEnd, String.append_assoc, String.append_assoc]
    exact whole

theorem takes_formulaMarkup (formula : Formula) (source : String) (standing : Standing) :
    Takes (.text []) (Math.formulaMarkup Math.markupTypesetter formula source standing) (.text [])
      (formulaParts formula source standing) := by
  unfold Math.formulaMarkup formulaParts
  simp only
  generalize String.ofList (Text.trim formula.tex.toList) = tex
  have typeset : Math.markupTypesetter tex formula.display = (Math.check tex).map fun _ =>
      if formula.display then "<span class=\"math math-display\">\\[" ++ Text.escapeText tex ++ "\\]</span>"
      else "<span class=\"math math-inline\">\\(" ++ Text.escapeText tex ++ "\\)</span>" := by
    unfold Math.markupTypesetter
    cases Math.check tex with
    | error error => rfl
    | ok _ => cases formula.display <;> rfl
  rw [typeset]
  cases Math.check tex with
  | ok _ =>
    have inner := takes_typeset tex formula.display
    simp only [Except.map]
    split
    · have opens : Takes (.text []) "<div class=\"math-block\">" (.text []) [.start "div" [("class", "math-block")]] := by
        decide
      have ends : Takes (.text []) "</div>" (.text []) [.stop "div"] := by decide
      have whole := (opens.append inner).append ends
      rwa [List.append_assoc] at whole
    · exact inner
  | error error =>
    have inner := takes_errorMarkup source error
    simp only [Except.map]
    split
    · have opens : Takes (.text []) "<p>" (.text []) [.start "p" []] := by decide
      have ends : Takes (.text []) "</p>" (.text []) [.stop "p"] := by decide
      have whole := (opens.append inner).append ends
      rwa [List.append_assoc] at whole
    · exact inner

/-! ## Headings -/

/-- The tags that nest the lists of a table of contents. -/
def isListMark : Part → Bool
  | .start "ul" [] | .start "li" [] | .stop "ul" | .stop "li" => true
  | _ => false

/-- An entry: its level, and a link with its anchor and its text. -/
def entryParts (entry : ContentsEntry) : List Part :=
  .start "li" [("class", "toc-level-" ++ toString entry.level)] :: .start "a" [("href", "#" ++ entry.anchor)] ::
    (Part.ofText entry.text ++ [.stop "a"])

/-- A table of contents without the tags that nest its lists. Without entries there is nothing. -/
def contentsParts (entries : List ContentsEntry) : List Part :=
  if entries = [] then []
  else .start "nav" [("class", "table-of-contents")] :: .start "h4" [] :: .text "Table of Contents" :: .stop "h4" ::
    (entries.flatMap entryParts ++ [.stop "nav"])

theorem takes_itemMarkup (entry : ContentsEntry) :
    Takes (.text []) (Heading.itemMarkup entry) (.text []) (entryParts entry) := by
  have digits : ∀ {c : Char}, c.isDigit = false → c ∉ (toString entry.level).toList := fun other => not_mem_toString other _
  have plain : '&' ∉ ("toc-level-" ++ toString entry.level).toList := by
    rw [String.toList_append]
    exact List.not_mem_append (by decide) (digits (by decide))
  have opens : Takes (.text []) "<li class=\"toc-level-" (.value "li" [] "class" "toc-level-".toList.reverse) [] := by decide
  have level : Takes (.value "li" [] "class" "toc-level-".toList.reverse) (toString entry.level)
      (.value "li" [] "class" ("toc-level-" ++ toString entry.level).toList.reverse) [] := by
    rw [String.toList_append, List.reverse_append]
    exact .inValue (digits (by decide)) (digits (by decide)) (digits (by decide))
  have between : Takes (.value "li" [] "class" ("toc-level-" ++ toString entry.level).toList.reverse) "\"><a href=\"#"
      (.value "a" [] "href" "#".toList.reverse) [.start "li" [("class", "toc-level-" ++ toString entry.level)]] := by
    have reads : Takes (.value "li" [] "class" ("toc-level-" ++ toString entry.level).toList.reverse) "\"><a href=\"#"
        (.value "a" [] "href" "#".toList.reverse)
        [.start "li" [("class", decodedReversed ("toc-level-" ++ toString entry.level).toList.reverse)]] := ⟨rfl⟩
    rwa [decodedReversed_plain plain] at reads
  have anchor := Takes.lastAttribute "a" [] "href" "#" (by decide) entry.anchor
  have closes : Closes "</a>" [.stop "a"] := fun _ => ⟨rfl⟩
  have whole := (((opens.append level).append between).append anchor).append (.alone closes entry.text)
  rw [← String.append_assoc, ← String.append_assoc] at whole
  exact whole

/-- The tags of an item that only holds a list. -/
def levelParts : List Part := [.start "li" [], .start "ul" []]

/-- The tags that close such an item. -/
def levelEnds : List Part := [.stop "ul", .stop "li"]

/-- The tags that lead from the entry before to an entry of a level. -/
def stepParts (base : Nat) : Option Nat → Nat → List Part
  | none, level => (List.replicate (level - base) levelParts).flatten
  | some current, level =>
    if current < level then .start "ul" [] :: (List.replicate (level - (current + 1)) levelParts).flatten
    else .stop "li" :: (List.replicate (current - level) levelEnds).flatten

/-- The items of some entries, with what closes the last one. -/
def itemsParts (base : Nat) : Option Nat → List ContentsEntry → List Part
  | none, [] => []
  | some current, [] => .stop "li" :: (List.replicate (current - base) levelEnds).flatten
  | depth, entry :: rest => stepParts base depth entry.level ++ entryParts entry ++ itemsParts base (some entry.level) rest

/-- What is written in front of the items of a table of contents. -/
def headParts : List Part :=
  [.start "nav" [("class", "table-of-contents")], .start "h4" [], .text "Table of Contents", .stop "h4", .start "ul" []]

theorem Takes.times {markup : String} {parts : List Part} (takes : Takes (.text []) markup (.text []) parts) (n : Nat) :
    Takes (.text []) (Heading.times n markup) (.text []) (List.replicate n parts).flatten := by
  unfold Heading.times
  induction n with
  | zero => exact .empty _
  | succ n ih =>
    rw [List.replicate_succ, String.join_cons, List.replicate_succ, List.flatten_cons]
    exact takes.append ih

theorem takes_levelParts : Takes (.text []) "<li><ul>" (.text []) levelParts := by decide

theorem takes_levelEnds : Takes (.text []) "</ul></li>" (.text []) levelEnds := by decide

theorem takes_stepMarkup (base : Nat) (depth : Option Nat) (level : Nat) :
    Takes (.text []) (Heading.stepMarkup base depth level) (.text []) (stepParts base depth level) := by
  have listOpens : Takes (.text []) "<ul>" (.text []) [.start "ul" []] := by decide
  have itemEnds : Takes (.text []) "</li>" (.text []) [.stop "li"] := by decide
  unfold Heading.stepMarkup stepParts
  cases depth with
  | none => exact takes_levelParts.times _
  | some current =>
    simp only
    split
    · exact listOpens.append (takes_levelParts.times _)
    · exact itemEnds.append (takes_levelEnds.times _)

theorem takes_itemsMarkup (base : Nat) (depth : Option Nat) (entries : List ContentsEntry) :
    Takes (.text []) (Heading.itemsMarkup base depth entries) (.text []) (itemsParts base depth entries) := by
  induction entries generalizing depth with
  | nil =>
    cases depth with
    | none => exact .empty _
    | some current =>
      have itemEnds : Takes (.text []) "</li>" (.text []) [.stop "li"] := by decide
      exact itemEnds.append (takes_levelEnds.times _)
  | cons entry rest ih =>
    have whole := ((takes_stepMarkup base depth entry.level).append (takes_itemMarkup entry)).append (ih (some entry.level))
    cases depth <;> exact whole

/-- Without entries there is no table of contents, and with some it is one list. -/
theorem takes_listMarkup {base : Nat} {entries : List ContentsEntry}
    (least : (entries.map ContentsEntry.level).min? = some base) :
    Takes (.text []) (contentsMarkup entries) (.text [])
      (headParts ++ itemsParts base none entries ++ [.stop "ul", .stop "nav"]) := by
  have opens : Takes (.text []) "<nav class=\"table-of-contents\"><h4>Table of Contents</h4><ul>" (.text []) headParts := by
    decide
  have ends : Takes (.text []) "</ul></nav>" (.text []) [.stop "ul", .stop "nav"] := by decide
  unfold contentsMarkup
  rw [least]
  exact (opens.append (takes_itemsMarkup base none entries)).append ends

/-- Nothing is left of tags that nest lists, however often they come. -/
theorem filter_marks {marks : List Part} (only : marks.filter (fun part => !isListMark part) = []) (n : Nat) :
    (List.replicate n marks).flatten.filter (fun part => !isListMark part) = [] := by
  rw [List.filter_flatten, List.map_replicate, only, List.flatten_replicate_nil]

theorem filter_stepParts (base : Nat) (depth : Option Nat) (level : Nat) :
    (stepParts base depth level).filter (fun part => !isListMark part) = [] := by
  unfold stepParts
  cases depth with
  | none => exact filter_marks (by decide) _
  | some current =>
    simp only
    split
    · exact filter_marks (by decide) _
    · exact filter_marks (by decide) _

theorem filter_itemsParts (base : Nat) (depth : Option Nat) (entries : List ContentsEntry) :
    (itemsParts base depth entries).filter (fun part => !isListMark part) = entries.flatMap entryParts := by
  induction entries generalizing depth with
  | nil =>
    cases depth with
    | none => rfl
    | some current => exact filter_marks (by decide) _
  | cons entry rest ih =>
    have parts : itemsParts base depth (entry :: rest) =
        stepParts base depth entry.level ++ entryParts entry ++ itemsParts base (some entry.level) rest := by
      cases depth <;> rfl
    have stays : (entryParts entry).filter (fun part => !isListMark part) = entryParts entry := by
      unfold entryParts Part.ofText
      split <;> rfl
    rw [parts, List.filter_append, List.filter_append, filter_stepParts, stays, ih, List.nil_append, List.flatMap_cons]

/-- The entries stand in the list as they are, with nothing but nesting around them. -/
theorem takes_contentsMarkup (entries : List ContentsEntry) :
    ∃ parts : List Part, Takes (.text []) (contentsMarkup entries) (.text []) parts ∧
      parts.filter (fun part => !isListMark part) = contentsParts entries := by
  unfold contentsParts
  cases least : (entries.map ContentsEntry.level).min? with
  | none =>
    have absent : entries = [] := by simpa using least
    refine ⟨[], ?_, by rw [if_pos absent]; rfl⟩
    unfold contentsMarkup
    rw [least]
    exact .empty _
  | some base =>
    have present : entries ≠ [] := by
      rintro rfl
      cases least
    refine ⟨_, takes_listMarkup least, ?_⟩
    rw [List.filter_append, List.filter_append, filter_itemsParts, if_neg present]
    rfl

/-! ## Diagrams and code -/

/-- What stands in the place of a diagram that failed. -/
def diagramErrorParts (message : String) : List Part :=
  [.start "pre" [("class", "mermaid-error")], .text ("Mermaid error: " ++ message), .stop "pre"]

/-- The place of a diagram. -/
def placeParts (id code : String) : List Part :=
  .start "div" [("class", "mermaid"), ("id", id)] :: (Part.ofText code ++ [.stop "div", .text "\n"])

/-- A block of code that is not highlighted. -/
def codeParts (block : CodeBlock) : List Part :=
  let kind := match block.language? with
    | none => "hljs"
    | some language => "hljs language-" ++ language
  .start "pre" [] :: .start "code" [("class", kind)] ::
    (Part.ofText block.code ++ [.stop "code", .stop "pre", .text "\n"])

theorem consistsOf_errorBlock (message : String) :
    ConsistsOf (Diagram.errorBlock message) (diagramErrorParts message) := by
  have opens : Takes (.text []) "<pre class=\"mermaid-error\">" (.text []) [.start "pre" [("class", "mermaid-error")]] := by
    decide
  have closes : Closes "</pre>" [.stop "pre"] := fun _ => ⟨rfl⟩
  have split : "<pre class=\"mermaid-error\">Mermaid error: " = "<pre class=\"mermaid-error\">" ++ "Mermaid error: " := by
    decide
  have whole := Takes.framed "Mermaid error: " "" opens closes (by decide) (by decide) message
  rw [Part.ofText_of_ne (by simp), String.append_empty, String.empty_append] at whole
  unfold Diagram.errorBlock
  rw [split, String.append_assoc, String.append_assoc]
  exact whole.consistsOf

theorem consistsOf_diagramMarkup (id code : String) : ConsistsOf (Code.diagramMarkup id code) (placeParts id code) := by
  have opens : Takes (.text []) "<div class=\"mermaid\" id=\"" (.value "div" [("class", "mermaid")] "id" "".toList.reverse)
      [] := by decide
  have named := Takes.lastAttribute "div" [("class", "mermaid")] "id" "" (by decide) id
  have closes : Closes "</div>" [.stop "div"] := fun _ => ⟨rfl⟩
  have ends : Takes (.text []) "\n" (.text "\n".toList.reverse) [] := by decide
  have whole := (((opens.append named).append (.alone closes code)).append ends).consistsOf
  have lineEnd : Part.ofText "\n" = [.text "\n"] := by decide
  rw [decodedReversed_plain (by decide), lineEnd, String.empty_append] at whole
  have split : "</div>\n" = "</div>" ++ "\n" := by decide
  unfold Code.diagramMarkup placeParts
  rw [split]
  simpa [String.append_assoc] using whole

/-- Code that is not highlighted, in an element that names its language. -/
theorem consistsOf_code {opening kind : String} (opens : Takes (.text []) opening (.text [])
    [.start "pre" [], .start "code" [("class", kind)]]) (code : String) :
    ConsistsOf (opening ++ Text.escapeText code ++ "</code></pre>\n") (.start "pre" [] :: .start "code" [("class", kind)] ::
      (Part.ofText code ++ [.stop "code", .stop "pre", .text "\n"])) := by
  have closes : Closes "</code></pre>" [.stop "code", .stop "pre"] := fun _ => ⟨rfl⟩
  have ends : Takes (.text []) "\n" (.text "\n".toList.reverse) [] := by decide
  have whole := ((opens.append (.alone closes code)).append ends).consistsOf
  have lineEnd : Part.ofText "\n" = [.text "\n"] := by decide
  rw [decodedReversed_plain (by decide), lineEnd] at whole
  have split : "</code></pre>\n" = "</code></pre>" ++ "\n" := by decide
  rw [split]
  simpa [String.append_assoc] using whole

theorem consistsOf_highlightMarkup {highlighting : Highlighting} {block : CodeBlock}
    (fails : ∀ language ∈ block.language?, highlighting.supports language = true →
      ∃ error, highlighting.highlight block.code language = .error error) :
    ConsistsOf (Code.highlightMarkup highlighting block) (codeParts block) := by
  unfold Code.highlightMarkup codeParts
  cases named : block.language? with
  | none => exact consistsOf_code (by decide) block.code
  | some language =>
    have opens : Takes (.text []) "<pre><code class=\"hljs language-"
        (.value "code" [] "class" "hljs language-".toList.reverse) [.start "pre" []] := by decide
    have tag := Takes.lastAttribute "code" [] "class" "hljs language-" (by decide) language
    have whole := opens.append tag
    rw [← String.append_assoc] at whole
    have code := consistsOf_code whole block.code
    simp only
    split
    next supported =>
      obtain ⟨error, failed⟩ := fails language named supported
      rw [failed]
      exact code
    next => exact code

/-! ## All templates -/

/-- Nothing that an author writes breaks out of the markup that is written around it. -/
theorem consistsOf_templates :
    (∀ formula source standing, ConsistsOf (Math.formulaMarkup Math.markupTypesetter formula source standing)
      (formulaParts formula source standing)) ∧
    (∀ source error, ConsistsOf (Math.errorMarkup source error) (errorParts source error)) ∧
    (∀ entries, ∃ parts, ConsistsOf (contentsMarkup entries) parts ∧
      parts.filter (fun part => !isListMark part) = contentsParts entries) ∧
    (∀ message, ConsistsOf (Diagram.errorBlock message) (diagramErrorParts message)) ∧
    (∀ block diagrams, ConsistsOf (Handler.diagram.render block diagrams).1 (placeParts diagrams.ids.next.1 block.code)) ∧
    ∀ highlighting block diagrams, (∀ language ∈ block.language?, highlighting.supports language = true →
        ∃ error, highlighting.highlight block.code language = .error error) →
      ConsistsOf ((Handler.highlight highlighting).render block diagrams).1 (codeParts block) := by
  refine ⟨?_, ?_, ?_, consistsOf_errorBlock, ?_, ?_⟩
  · intro formula source standing
    exact (takes_formulaMarkup formula source standing).consistsOf_of_tag
  · intro source error
    exact (takes_errorMarkup source error).consistsOf_of_tag
  · intro entries
    obtain ⟨parts, takes, shown⟩ := takes_contentsMarkup entries
    exact ⟨parts, takes.consistsOf_of_tag, shown⟩
  · intro block diagrams
    exact consistsOf_diagramMarkup _ _
  · intro highlighting block diagrams fails
    exact consistsOf_highlightMarkup fails

/-- Code whose language is no language, and would end the tag if it were not escaped. -/
def breakingBlock : CodeBlock := ⟨"\"><b>", "</code>&lt;"⟩

theorem consistsOf_breakingBlock :
    (∀ language ∈ breakingBlock.language?, Code.plainHighlighting.supports language = true →
      ∃ error, Code.plainHighlighting.highlight breakingBlock.code language = .error error) ∧
    ConsistsOf ((Handler.highlight Code.plainHighlighting).render breakingBlock (.ofIds .sequential)).1
      [.start "pre" [], .start "code" [("class", "hljs language-\"><b>")], .text "</code>&lt;", .stop "code", .stop "pre",
        .text "\n"] := by
  have unknown : ∀ language ∈ breakingBlock.language?, Code.plainHighlighting.supports language = true →
      ∃ error, Code.plainHighlighting.highlight breakingBlock.code language = .error error := by
    intro language named supported
    have same : language = "\"><b>" := by
      have known : breakingBlock.language? = some "\"><b>" := by decide
      rw [known] at named
      exact (Option.some.inj named).symm
    subst same
    exact absurd supported (by decide +kernel)
  have parts : codeParts breakingBlock = [.start "pre" [], .start "code" [("class", "hljs language-\"><b>")],
      .text "</code>&lt;", .stop "code", .stop "pre", .text "\n"] := by decide
  refine ⟨unknown, ?_⟩
  rw [← parts]
  exact consistsOf_templates.2.2.2.2.2 Code.plainHighlighting breakingBlock (.ofIds .sequential) unknown

end Galley.Html
