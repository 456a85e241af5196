import Galley.Proofs.Sanitizer.Refusal
import Galley.Proofs.Session.Elements
import Mathlib

/-!
# Which pages are shown as they were made

A tree of markup writes its texts and values escaped. The screen decodes the text in a place but not the id, and
escapes both.

* `isRegular_of_clean` — the elements of clean trees are regular;
* `respelled_placeOf_iff` — the places of a tree that the screen writes in the same way;
* `markup_ofMarkup_writeAll_eq_iff` — the page is shown as it was made up to ampersands in ids and no-break spaces in
  places.
-/

namespace Galley

open Galley.Diagram (NamedDiagram)
open Html (diagramsIn elementsOf placeOf verbatimIn writeAll)

/-! ## Clean pages -/

theorem isPlainName_usual :
    (∀ tag ∈ (Sanitizer.Rules.ofAllowance .none).tags, Html.IsPlainName tag ∧ '/' ∉ tag.toList) ∧
      (∀ name ∈ (Sanitizer.Rules.ofAllowance .none).everywhere, Html.IsPlainName name) ∧
        ∀ entry ∈ (Sanitizer.Rules.ofAllowance .none).attributes, ∀ name ∈ entry.2, Html.IsPlainName name := by
  decide +kernel

/-- The elements of a page with the usual allowance are regular, but for foreign attributes. -/
theorem isRegular_of_clean {parent element : Html.Element} {nodes : List Html.Node}
    (member : element ∈ elementsOf (Sanitizer.cleanAll (.ofAllowance .none) parent nodes))
    (scopes : ∀ attr ∈ element.attributes, attr.scope = "") : element.IsRegular := by
  obtain ⟨tags, everywhere, special⟩ := isPlainName_usual
  obtain ⟨allowed, attributes⟩ := Sanitizer.elementsOf_cleanAll nodes element member
  rw [Sanitizer.Rules.allowsTag, List.contains_eq_mem, decide_eq_true_eq] at allowed
  refine ⟨(tags _ allowed).1, fun attr listed => ⟨scopes attr listed ▸ by decide, ?_⟩, (tags _ allowed).2⟩
  rcases attributes attr listed with kept | rfl
  · rw [Sanitizer.Rules.allowsAttribute, Bool.or_eq_true, List.contains_eq_mem, decide_eq_true_eq,
      List.any_eq_true] at kept
    rcases kept with general | ⟨entry, known, named⟩
    · exact everywhere _ general
    · rw [Bool.and_eq_true, List.contains_eq_mem, decide_eq_true_eq] at named
      exact special entry known _ named.2
  · decide

/-! ## Places that are written alike -/

theorem length_le_escapeAttribute (cs : List Char) :
    cs.length + cs.count '&' ≤ (cs.flatMap Text.escapeAttributeChar).length := by
  have one (c : Char) : 1 + [c].count '&' ≤ (Text.escapeAttributeChar c).length := by
    unfold Text.escapeAttributeChar Text.escapeTextChar
    split_ifs with quote ampersand
    · subst quote; decide
    · subst ampersand; decide
    · simp [ampersand]
    · simp [ampersand]
    · simp [ampersand]
  induction cs with
  | nil => exact le_rfl
  | cons c cs ih =>
    have here := one c
    rw [List.flatMap_cons, List.length_append, ← List.singleton_append, List.count_append, List.length_append,
      List.length_singleton]
    omega

/-- An id is escaped to itself if and only if there is nothing in it to escape. -/
theorem escapeAttribute_eq_self_iff {cs : List Char} (opens : '<' ∉ cs) (closes : '>' ∉ cs) (quote : '\x22' ∉ cs) :
    cs.flatMap Text.escapeAttributeChar = cs ↔ '&' ∉ cs := by
  refine ⟨fun same member => ?_, fun absent => ?_⟩
  · have longer := length_le_escapeAttribute cs
    have some := List.count_pos_iff.mpr member
    rw [same] at longer
    omega
  · have each : ∀ c ∈ cs, Text.escapeAttributeChar c = [c] := by
      intro c member
      unfold Text.escapeAttributeChar Text.escapeTextChar
      rw [if_neg (ne_of_mem_of_not_mem member quote), if_neg (ne_of_mem_of_not_mem member absent),
        if_neg (ne_of_mem_of_not_mem member opens), if_neg (ne_of_mem_of_not_mem member closes)]
    rw [List.flatMap_congr each, List.flatMap_singleton']

/-- The place of a diagram in a tree is written in the same way if there is nothing to escape in its id and no no-break
space in its text. -/
theorem respelled_placeOf_iff {node : NamedDiagram} {nodes : List Html.Node} (member : node ∈ diagramsIn nodes) :
    (placeOf node).respelled = placeOf node ↔ '&' ∉ (placeOf node).id ∧ '\u00a0' ∉ node.source.toList := by
  obtain ⟨value, id⟩ := Html.id_of_mem_diagramsIn nodes member
  have absent {c : Char} (special : c = '<' ∨ c = '>' ∨ c = '\x22') : c ∉ (placeOf node).id := by
    rw [placeOf, id, Html.escapeValue, String.toList_ofList]
    exact Html.not_mem_escapeValue special _
  have source : (placeOf node).body = node.source.toList.flatMap Html.escapeTextChar := by
    rw [placeOf, Html.escapeText, String.toList_ofList]
  have parts : (placeOf node).respelled = placeOf node ↔
      (placeOf node).respelled.id = (placeOf node).id ∧ (placeOf node).respelled.body = (placeOf node).body := by
    rw [Placeholder.respelled, Placeholder.mk.injEq]
  rw [parts, ← escapeAttribute_eq_self_iff (absent (.inl rfl)) (absent (.inr (.inl rfl))) (absent (.inr (.inr rfl))),
    ← Text.escapeText_eq_escapeHtml_iff, Placeholder.respelled, source, Text.decodeChars_escapeHtml]

/-- A page that is written from a tree is shown as it was made, for any number of places, unless the id of a place that
counts holds a reference or its text a no-break space: an id is escaped a second time, and a no-break space is no longer
written as a reference. -/
theorem markup_ofMarkup_writeAll_eq_iff (generation : Nat) (nodes : List Html.Node)
    (regular : ∀ element ∈ elementsOf nodes, element.IsRegular) (verbatim : '<' ∉ verbatimIn nodes) :
    let html := writeAll false nodes
    (Screen.ofMarkup generation html).markup = html ↔
      ∀ place ∈ awaitedPlaces html, '&' ∉ place.id ∧ '\u00a0' ∉ Text.decodeChars place.body := by
  intro html
  rw [markup_ofMarkup_eq_iff]
  refine forall₂_congr fun place member => ?_
  have listed : place ∈ placesOf html.toList := (distinctParts_sublist [] _).subset member
  rw [(Html.laid_writeAll nodes regular verbatim).placesOf_eq] at listed
  obtain ⟨node, stands, rfl⟩ := List.mem_map.mp listed
  have source : Text.decodeChars (placeOf node).body = node.source.toList := by
    rw [placeOf, Html.escapeText, String.toList_ofList, Text.decodeChars_escapeHtml]
  rw [source]
  exact respelled_placeOf_iff stands

/-- Two places, one of them with a bracket in its text, and a frame between them. -/
theorem markup_ofMarkup_two_places :
    let nodes : List Html.Node := [
      .element ⟨.html, "div", [⟨"", "class", "mermaid"⟩, ⟨"", "id", "mermaid-1"⟩]⟩ [.text "a<b"],
      .element ⟨.html, "iframe", []⟩ [.text "x"],
      .element ⟨.html, "div", [⟨"", "class", "mermaid"⟩, ⟨"", "id", "a&b"⟩]⟩ [.text "y"]]
    (∀ element ∈ elementsOf nodes, element.IsRegular) ∧ '<' ∉ verbatimIn nodes ∧
      ((Screen.ofMarkup 1 (writeAll false nodes)).markup = writeAll false nodes ↔
        ∀ place ∈ awaitedPlaces (writeAll false nodes),
          '&' ∉ place.id ∧ '\u00a0' ∉ Text.decodeChars place.body) :=
  ⟨by decide, by decide, markup_ofMarkup_writeAll_eq_iff 1 _ (by decide) (by decide)⟩

/-- An id with a reference is escaped again. -/
example : (Screen.ofMarkup 1 "<div class=\"mermaid\" id=\"a&amp;b\">x</div>").markup =
    "<div class=\"mermaid\" id=\"a&amp;amp;b\">x</div>" := by decide +kernel

end Galley
