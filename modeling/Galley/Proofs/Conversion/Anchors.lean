import Galley.Proofs.Code.DiagramPlaces
import Galley.Proofs.Conversion.Diagrams
import Galley.Proofs.Html.Slots
import Galley.Proofs.Markdown.Anchored

/-!
# The ids that the converter writes

Footnotes and diagrams get ids with numbers in them: a footnote by its place in the section, a reference by its footnote and
how many references there were before, a diagram by how many diagrams there were before. From the id the numbers can be
told, and whose id it is.

* `itemId`, `referenceId`, `referenceId_injective` — ids of footnotes and of references to them;
* `Registry.GivesNoIds`, `exists_new_anchors` — highlighted code gives no ids, and the place of a diagram gives its name;
* `carries_referenceMarkup`, `framed_anchored` — the ids of references and of footnotes;
* `anchored_written?` — what is written for one event can be read where it stands.
-/

namespace Galley

open Galley.Diagram (NamedDiagram)
open Galley.Html (Anchor Carries Takes anchorsOf anchorsOf_append anchorsOf_ofText decodedReversed decodedReversed_plain)
open Galley.Markdown (Event Tag anchors_of_carries)

/-! ## Numbers in ids -/

/-- The id of a footnote. -/
def itemId (number : Nat) : String := "fn-" ++ toString number

/-- The id of a reference to a footnote. -/
def referenceId (number count : Nat) : String :=
  if count == 1 then "fnref-" ++ toString number else "fnref-" ++ toString number ++ "-" ++ toString count

theorem itemId_injective : Function.Injective itemId := by
  intro m n same
  have digits := congrArg String.toList same
  simp only [itemId, String.toList_append, List.append_right_inj, String.toList_inj] at digits
  exact Nat.repr_inj.mp digits

/-- What stands behind the number of the footnote. -/
def countText (count : Nat) : List Char := if count = 1 then [] else '-' :: (toString count).toList

theorem toList_referenceId (number count : Nat) :
    (referenceId number count).toList = "fnref-".toList ++ ((toString number).toList ++ countText count) := by
  unfold referenceId countText
  by_cases first : count = 1
  · simp [first]
  · simp [first]

/-- It does not go on with the number. -/
theorem takeWhile_countText (number count : Nat) :
    ((toString number).toList ++ countText count).takeWhile Char.isDigit = (toString number).toList := by
  have digits : ∀ c ∈ (toString number).toList, c.isDigit = true := by
    intro c member
    cases digit : c.isDigit with
    | true => rfl
    | false => exact absurd member (not_mem_toString digit number)
  have stops : (countText count).takeWhile Char.isDigit = [] := by
    unfold countText
    split <;> rfl
  rw [List.takeWhile_append_of_pos digits, stops, List.append_nil]

/-- An id tells the footnote and the reference. -/
theorem referenceId_injective {m n i j : Nat} (same : referenceId m i = referenceId n j) : m = n ∧ i = j := by
  have chars := congrArg String.toList same
  rw [toList_referenceId, toList_referenceId, List.append_right_inj] at chars
  -- The number of the footnote is made of the first digits, since the count begins with a dash.
  have numbers := congrArg (List.takeWhile Char.isDigit) chars
  rw [takeWhile_countText, takeWhile_countText] at numbers
  rw [numbers, List.append_right_inj] at chars
  refine ⟨Nat.repr_inj.mp (String.toList_inj.mp numbers), ?_⟩
  unfold countText at chars
  split_ifs at chars with first other
  · rw [first, other]
  · exact Nat.repr_inj.mp (String.toList_inj.mp (List.cons.inj chars).2)

theorem itemId_ne_referenceId (m n i : Nat) : itemId m ≠ referenceId n i := by
  intro same
  have chars := congrArg String.toList same
  unfold itemId referenceId at chars
  split at chars <;> simp at chars

theorem itemId_ne_sequentialId (m n : Nat) : itemId m ≠ sequentialId n := by
  intro same
  have chars := congrArg String.toList same
  simp [itemId, sequentialId, Diagram.idStart] at chars

theorem referenceId_ne_sequentialId (m i n : Nat) : referenceId m i ≠ sequentialId n := by
  intro same
  have chars := congrArg String.toList same
  unfold referenceId sequentialId Diagram.idStart at chars
  split at chars <;> simp at chars

/-! ## Code -/

namespace Code

/-- Highlighting whose tags are complete and give no ids. -/
def Highlighting.GivesNoIds (highlighting : Highlighting) : Prop :=
  ∀ code language markup, highlighting.highlight code language = .ok markup →
    (Html.Part.ofMarkup? markup).map anchorsOf = some []

/-- No highlighting of a registry gives ids. -/
def Registry.GivesNoIds (registry : Registry) : Prop :=
  ∀ highlighting, .highlight highlighting ∈ registry.fallback :: registry.handlers.map Prod.snd →
    highlighting.GivesNoIds

theorem carries_highlightMarkup {highlighting : Highlighting} (noIds : highlighting.GivesNoIds) (block : CodeBlock) :
    Carries (highlightMarkup highlighting block) [] := by
  have ends : Carries "</code></pre>\n" [] := .ofMarkup (by decide)
  unfold highlightMarkup
  split
  next =>
    have opens : Carries "<pre><code class=\"hljs\">" [] := .ofMarkup (by decide)
    exact (opens.append (.shown block.code)).append ends
  next language _ =>
    have opens : Carries "<pre>" [] := .ofMarkup (by decide)
    have code : Takes (.text []) "<code class=\"hljs language-" (.value "code" [] "class" "hljs language-".toList.reverse)
        [] := by decide
    have tag : Carries _ [] := opens.append (.lastAttribute code (by decide) language)
    have split : "<pre><code class=\"hljs language-" = "<pre>" ++ "<code class=\"hljs language-" := by decide
    have whole {body : String} (inner : Carries body []) :
        Carries ("<pre><code class=\"hljs language-" ++ Text.escapeAttribute language ++ "\">" ++ body ++ "</code></pre>\n")
          [] := by
      have all : Carries _ [] := (tag.append inner).append ends
      rw [split]
      simpa only [String.append_assoc] using all
    refine whole ?_
    split
    · split
      next markup made => exact .ofMarkup (noIds _ _ _ made)
      next => exact .shown block.code
    · exact .shown block.code

theorem carries_diagramMarkup (id code : String) : Carries (diagramMarkup id code) [⟨false, id⟩] := by
  apply Carries.ofMarkup
  rw [(Html.consistsOf_diagramMarkup id code).read]
  have place : anchorsOf (Html.placeParts id code) = ⟨false, id⟩ ::
      anchorsOf (Html.Part.ofText code ++ [.stop "div", .text "\n"]) := rfl
  rw [Option.map_some, place, anchorsOf_append, anchorsOf_ofText]
  rfl

theorem not_mem_escapeCode {d : Char} (bracket : d = '<' ∨ d = '>') (cs : List Char) : d ∉ cs.flatMap escapeCodeChar := by
  intro member
  obtain ⟨c, -, written⟩ := List.mem_flatMap.mp member
  unfold escapeCodeChar at written
  split at written
  · rcases bracket with rfl | rfl <;> revert written <;> decide
  · have special : d = '<' ∨ d = '>' ∨ d = '\x22' := by
      rcases bracket with rfl | rfl <;> simp
    exact Text.not_mem_escapeAttribute special [c] (List.mem_flatMap.mpr ⟨c, List.mem_singleton_self c, written⟩)

theorem givesNoIds_ofDiagramTag (tag : String) : (Registry.ofDiagramTag tag).GivesNoIds := by
  intro highlighting member code language markup made
  obtain rfl := eq_plainHighlighting member
  rw [plainHighlighting_ok made]
  have carries : Carries (plainMarkup code) [] := by
    unfold plainMarkup
    split
    · exact .empty
    · have opens : Carries "<span class=\"hl-text hl-plain\">" [] := .ofMarkup (by decide)
      have ends : Carries "</span>" [] := .ofMarkup (by decide)
      refine (opens.append (.ofText ?_ ?_)).append ends
      · rw [String.toList_ofList]
        exact not_mem_escapeCode (.inl rfl) _
      · rw [String.toList_ofList]
        exact not_mem_escapeCode (.inr rfl) _
  obtain ⟨parts, read, same⟩ := carries.ofMarkup?_eq
  rw [read, Option.map_some, same]

/-- The ids in the markup of a block are the names of the diagrams that it adds. -/
theorem Registry.exists_new_anchors {registry : Registry} (noIds : registry.GivesNoIds) (block : CodeBlock)
    (diagrams : PassDiagrams) : ∃ new : List NamedDiagram,
      (registry.render block diagrams).2.nodes = diagrams.nodes ++ new ∧
      Carries (registry.render block diagrams).1 (new.map fun node => ⟨false, node.id⟩) := by
  unfold Registry.render
  simp only
  cases chosen : (block.language?.bind registry.handler?).getD registry.fallback with
  | highlight highlighting =>
    exact ⟨[], (List.append_nil _).symm, carries_highlightMarkup (noIds _ (mem_of_chosen chosen)) block⟩
  | diagram =>
    refine ⟨[⟨diagrams.ids.next.1, block.code⟩], ?_, carries_diagramMarkup _ _⟩
    simp [PassDiagrams.nodes, Handler.render]

end Code

/-! ## Footnotes -/

namespace Draft

variable {sources : Sources} {state : Draft} {event : Event} {stack stack' : List Tag}

/-- A number goes on with a value. -/
theorem takes_number (name key : String) (attributes : List (String × String)) (reversed : List Char) (number : Nat) :
    Takes (.value name attributes key reversed) (toString number)
      (.value name attributes key ((toString number).toList.reverse ++ reversed)) [] :=
  .inValue (not_mem_toString (by decide) number) (not_mem_toString (by decide) number)
    (not_mem_toString (by decide) number)

/-- There is nothing to decode in a number. -/
theorem decodedReversed_number {front : String} (plain : '&' ∉ front.toList) (number : Nat) :
    decodedReversed ((toString number).toList.reverse ++ front.toList.reverse) = front ++ toString number := by
  rw [← List.reverse_append, ← String.toList_append]
  apply decodedReversed_plain
  rw [String.toList_append]
  exact List.not_mem_append plain (not_mem_toString (by decide) number)

theorem carries_itemStart (number : Nat) :
    Carries ("<li id=\"fn-" ++ toString number ++ "\">\n") [⟨false, itemId number⟩] := by
  have opens : Takes (.text []) "<li id=\"fn-" (.value "li" [] "id" "fn-".toList.reverse) [] := by decide
  have ends (reversed : List Char) : Takes (.value "li" [] "id" reversed) "\">\n" (.text ['\n'])
      [.start "li" [("id", decodedReversed reversed)]] := ⟨rfl⟩
  refine .ofTakes ((opens.append (takes_number _ _ _ _ number)).append (ends _)) ?_
  rw [decodedReversed_number (by decide)]
  rfl

theorem carries_backReference (number : Nat) :
    Carries (" <a href=\"#fnref-" ++ toString number ++ "\" class=\"footnote-backref\">↩</a>") [] := by
  have opens : Takes (.text []) " <a href=\"#fnref-" (.value "a" [] "href" "#fnref-".toList.reverse) [.text " "] := by
    decide
  have ends (reversed : List Char) : Takes (.value "a" [] "href" reversed) "\" class=\"footnote-backref\">" (.text [])
      [.start "a" [("href", decodedReversed reversed), ("class", decodedReversed "footnote-backref".toList.reverse)]] := ⟨rfl⟩
  have tag : Carries _ [] := .ofTakes ((opens.append (takes_number _ _ _ _ number)).append (ends _)) rfl
  have link : Carries "↩</a>" [] := .ofMarkup (by decide)
  have split : "\" class=\"footnote-backref\">↩</a>" = "\" class=\"footnote-backref\">" ++ "↩</a>" := by decide
  rw [split, ← String.append_assoc]
  exact tag.append link

theorem not_mem_referenceId {c : Char} (other : c.isDigit = false) (fixed : c ∉ "fnref-".toList) (number count : Nat) :
    c ∉ (referenceId number count).toList := by
  rw [toList_referenceId]
  refine List.not_mem_append fixed (List.not_mem_append (not_mem_toString other number) ?_)
  unfold countText
  split
  · exact List.not_mem_nil
  · rw [List.mem_cons, not_or]
    refine ⟨?_, not_mem_toString other count⟩
    rintro rfl
    exact fixed (by decide)

theorem carries_referenceMarkup (number count : Nat) :
    Carries (referenceMarkup number count) [⟨false, referenceId number count⟩] := by
  have opens : Takes (.text []) "<sup class=\"footnote-ref\"><a href=\"#fn-" (.value "a" [] "href" "#fn-".toList.reverse)
      [.start "sup" [("class", "footnote-ref")]] := by decide
  have between (reversed : List Char) : Takes (.value "a" [] "href" reversed) "\" id=\""
      (.value "a" [("href", decodedReversed reversed)] "id" []) [] := ⟨rfl⟩
  have id (attributes : List (String × String)) : Takes (.value "a" attributes "id" []) (referenceId number count)
      (.value "a" attributes "id" ((referenceId number count).toList.reverse ++ [])) [] :=
    .inValue (not_mem_referenceId (by decide) (by decide) _ _) (not_mem_referenceId (by decide) (by decide) _ _)
      (not_mem_referenceId (by decide) (by decide) _ _)
  have closes (href : String) (reversed : List Char) : Takes (.value "a" [("href", href)] "id" reversed) "\">" (.text [])
      [.start "a" [("href", href), ("id", decodedReversed reversed)]] := ⟨rfl⟩
  have tag := (((opens.append (takes_number _ _ _ _ number)).append (between _)).append (id _)).append (closes _ _)
  have said : decodedReversed ((referenceId number count).toList.reverse ++ []) = referenceId number count := by
    rw [List.append_nil]
    exact decodedReversed_plain (not_mem_referenceId (by decide) (by decide) _ _)
  rw [said] at tag
  have link : Carries _ [⟨false, referenceId number count⟩] := .ofTakes tag rfl
  have shown : Carries (toString number) [] :=
    .ofText (not_mem_toString (by decide) number) (not_mem_toString (by decide) number)
  have ends : Carries "</a></sup>" [] := .ofMarkup (by decide)
  exact (link.append shown).append ends

/-! ## Where ids stand -/

theorem steady_anchored : Steady Event.Anchored where
  heading depth level id id' anchored := by
    cases depth with
    | none => exact anchored
    | some depth => trivial
  task depth anchored := by
    cases depth with
    | none => exact ⟨rfl, [], .ofMarkup (by decide)⟩
    | some depth => exact anchored.elim

theorem framed_anchored : Framed Event.Anchored where
  back number depth := by
    cases depth with
    | none => exact ⟨[], carries_backReference number⟩
    | some depth => trivial
  itemStart number := ⟨_, carries_itemStart number⟩
  itemEnd := ⟨[], .ofMarkup (by decide)⟩
  sectionStart := ⟨[], .ofMarkup (by decide)⟩
  sectionEnd := ⟨[], .ofMarkup (by decide)⟩

theorem finds_anchors : FindsItems Event.anchors fun number => [⟨false, itemId number⟩] where
  itemStart number := (anchors_of_carries (carries_itemStart number)).1
  itemEnd := by decide
  back number := (anchors_of_carries (carries_backReference number)).2
  paragraph := rfl
  sectionStart := by decide
  sectionEnd := by decide

/-- What is written for one event can be read where it stands. -/
theorem anchored_written? (noIds : sources.registry.GivesNoIds) (stands : Stands Event.Anchored stack state)
    (turns : Turns stack event stack') (own : event.isRaw = false) (graded : event.Graded) {written : Event}
    (made : written? sources state event = some written) : written.Anchored (depthOf stack) := by
  refine suits_written? stands turns own (fun block => ?_) (fun number count depth => ?_) ?_ made
  · obtain ⟨new, -, carries⟩ := Code.Registry.exists_new_anchors noIds
      ⟨block.info, sources.extraction.unmask block.code⟩ state.diagrams
    exact ⟨_, carries⟩
  · cases depth with
    | none => exact ⟨_, carries_referenceMarkup _ _⟩
    | some depth => trivial
  · intro depth other own item keeps
    have level := keeps graded
    cases depth with
    | none => cases other with
      | html markup => cases own
      | inlineHtml markup => cases own
      | start tag => cases tag <;> exact level
      | stop tag => cases tag <;> exact level
      | _ => trivial
    | some depth => cases other with
      | start tag => cases tag with
        | item => cases item rfl
        | _ => trivial
      | _ => trivial

end Draft

end Galley
