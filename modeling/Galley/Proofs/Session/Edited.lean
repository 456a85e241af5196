import Galley.EditSession
import Galley.Proofs.Conversion.Diagrams
import Galley.Proofs.Sanitizer.Coverage
import Galley.Proofs.Session.Elements
import Mathlib

/-!
# What waits after an edit

The places of a page are looked for in what the clean document is written as. So a diagram waits if its place is still
an element of the clean document with nothing but text in it, and the first one of its name.

* `firstNamed` — the diagrams that count where names are given twice;
* `awaitedDiagrams_writeAll` — what waits on the screen of a written tree;
* `awaitedDiagrams_edit` — what waits after an edit, and `unclosed_tag_hides_diagram`, what does not.
-/

namespace Galley

open Galley.Diagram (NamedDiagram)
open Html (diagramsIn elementsOf placeOf verbatimIn writeAll)

/-! ## Diagrams that count -/

/-- The diagrams that count: those with a name, and of several with one name the first. -/
def firstNamed : List String → List NamedDiagram → List NamedDiagram
  | _, [] => []
  | seen, node :: rest =>
    if node.id = "" ∨ node.id ∈ seen then firstNamed seen rest else node :: firstNamed (node.id :: seen) rest

theorem mem_firstNamed_iff {node : NamedDiagram} {seen : List String} {nodes : List NamedDiagram} :
    node ∈ firstNamed seen nodes ↔
      node.id ≠ "" ∧ node.id ∉ seen ∧ nodes.find? (fun other => other.id = node.id) = some node := by
  induction nodes generalizing seen with
  | nil => simp [firstNamed]
  | cons first rest ih =>
    rw [firstNamed]
    by_cases same : first.id = node.id
    · rw [List.find?_cons_of_pos (by simpa using same), Option.some.injEq]
      -- the first one of the name decides: it counts, or the name does not count at all
      split_ifs with met
      · rw [same] at met
        have passed : ¬ (node.id ≠ "" ∧ node.id ∉ seen) := fun both => met.elim both.1 both.2
        rw [ih, ← and_assoc, ← and_assoc]
        exact iff_of_false (fun found => passed found.1) fun found => passed found.1
      · rw [not_or, same] at met
        rw [List.mem_cons, ih]
        refine ⟨?_, fun found => .inl found.2.2.symm⟩
        rintro (is | ⟨-, unseen, -⟩)
        · exact ⟨met.1, met.2, is.symm⟩
        · exact absurd (same ▸ List.mem_cons_self) unseen
    · rw [List.find?_cons_of_neg (by simpa using same)]
      split_ifs with met
      · exact ih
      · rw [List.mem_cons, ih, List.mem_cons, not_or]
        refine ⟨?_, fun found => .inr ⟨found.1, ⟨Ne.symm same, found.2.1⟩, found.2.2⟩⟩
        rintro (is | ⟨named, unseen, found⟩)
        · exact absurd (congrArg NamedDiagram.id is.symm) same
        · exact ⟨named, unseen.2, found⟩

theorem diagrams_distinctParts (seen : List String) (parts : List PagePart) :
    ((distinctParts seen parts).filterMap PagePart.place?).map Placeholder.diagram =
      firstNamed seen ((parts.filterMap PagePart.place?).map Placeholder.diagram) := by
  have counts (place : Placeholder) (seen : List String) :
      (place.id.isEmpty || seen.contains (String.ofList place.id)) = true ↔
        place.diagram.id = "" ∨ place.diagram.id ∈ seen := by
    rw [Bool.or_eq_true, List.isEmpty_iff, List.contains_eq_mem, decide_eq_true_eq, Placeholder.diagram,
      ← String.toList_inj, String.toList_ofList]
    rfl
  fun_induction distinctParts seen parts with
  | case1 => rfl
  | case2 seen c rest ih => exact ih
  | case3 seen place rest named met ih =>
    rw [List.filterMap_append, filterMap_place?_map_char, List.nil_append, ih, List.filterMap_cons, PagePart.place?,
      List.map_cons, firstNamed, if_pos ((counts place seen).mp met)]
  | case4 seen place rest named met ih =>
    rw [List.filterMap_cons, List.filterMap_cons, PagePart.place?, List.map_cons, ih, List.map_cons, firstNamed,
      if_neg fun known => met ((counts place seen).mpr known)]
    rfl

/-- What waits on the screen of a written tree. -/
theorem awaitedDiagrams_writeAll (generation : Nat) {nodes : List Html.Node}
    (regular : ∀ element ∈ elementsOf nodes, element.IsRegular) (verbatim : '<' ∉ verbatimIn nodes) :
    (Screen.ofMarkup generation (writeAll false nodes)).awaitedDiagrams = firstNamed [] (diagramsIn nodes) := by
  have places : (placesOf (writeAll false nodes).toList).map Placeholder.diagram = diagramsIn nodes := by
    rw [(Html.laid_writeAll nodes regular verbatim).placesOf_eq, List.map_map]
    exact (List.map_congr_left fun node _ => Html.diagram_placeOf node).trans (List.map_id _)
  rw [awaitedDiagrams_ofMarkup, awaitedPlaces, diagrams_distinctParts, ← placesOf, places]

/-! ## Edits -/

/-- The clean trees of a document, which the page is written from. -/
def PageMaker.trees (maker : PageMaker) (source : String) : List Html.Node :=
  Sanitizer.cleanTrees maker.context.options.sanitizer (wholeMarkup maker.context maker.passIds source)

theorem make_spec {maker next : PageMaker} {source : String} {page : Page}
    (made : maker.make source = .ok (page, next)) :
    page.html = writeAll false (maker.trees source) ∧
      page.diagrams = (convert (.ofText source) maker.context.registry maker.passIds).diagrams := by
  unfold PageMaker.make at made
  cases cleaned : Sanitizer.clean maker.context.options.sanitizer (PageMaker.assembled maker.context (.ofText source)
      (convert (.ofText source) maker.context.registry maker.passIds).html
      (PageMaker.contentsOf (.ofText source) source)) with
  | error _ =>
    simp only [cleaned] at made
    cases made
  | ok html =>
    simp only [cleaned] at made
    cases made
    refine ⟨?_, rfl⟩
    unfold Sanitizer.clean at cleaned
    simp only at cleaned
    split at cleaned
    · exact (Except.ok.inj cleaned).symm
    · cases cleaned

theorem edit_of_make {session : EditSession} {source : String} {page : Page} {maker : PageMaker}
    (made : session.maker.make source = .ok (page, maker)) :
    ∃ pass next, session.edit source = .ok (pass, next) ∧ pass.page = page ∧
      next.screen = Screen.ofMarkup (session.generation + 1) page.html := by
  unfold EditSession.edit
  rw [made]
  exact ⟨_, _, rfl, rfl, rfl⟩

/-- Right after an edit, those diagrams wait that stand in the clean document as elements of their own with nothing but
text in them, and of several with one name the first. So a diagram of the document waits with its source if and only if
it is the first one of its name that stands there, whatever else the document holds. -/
theorem awaitedDiagrams_edit {session : EditSession} {source : String}
    (sequential : session.maker.context.options.naming = .sequential)
    (returns : ¬ session.maker.context.options.sanitizer.AsksForRel)
    (regular : ∀ element ∈ elementsOf (session.maker.trees source), element.IsRegular)
    (verbatim : '<' ∉ verbatimIn (session.maker.trees source)) :
    ∃ pass next, session.edit source = .ok (pass, next) ∧
      next.screen.awaitedDiagrams = firstNamed [] (diagramsIn (session.maker.trees source)) ∧
      ∀ node ∈ pass.page.diagrams, node ∈ next.screen.awaitedDiagrams ↔
        (diagramsIn (session.maker.trees source)).find? (fun other => other.id = node.id) = some node := by
  have someMade : ∃ made, session.maker.make source = .ok made :=
    Sanitizer.make_returns_iff.mpr (Sanitizer.clean_returns_iff.mpr returns)
  obtain ⟨⟨page, maker⟩, made⟩ := someMade
  obtain ⟨html, diagrams⟩ := make_spec made
  obtain ⟨pass, next, edited, rfl, screen⟩ := edit_of_make made
  have awaited : next.screen.awaitedDiagrams = firstNamed [] (diagramsIn (session.maker.trees source)) := by
    rw [screen, html, awaitedDiagrams_writeAll _ regular verbatim]
  refine ⟨pass, next, edited, awaited, fun node member => ?_⟩
  have ids : session.maker.passIds = .sequential := by rw [PageMaker.passIds, sequential]
  rw [diagrams, ids] at member
  -- a name that is given in order is not empty
  obtain ⟨n, named⟩ := (Draft.sequential_draftOfEvents _ _ _).exists_id member
  have some : node.id ≠ "" := fun none =>
    id_place_ne_nil named (by rw [Diagram.NamedDiagram.place, none]; rfl)
  rw [awaited, mem_firstNamed_iff]
  exact ⟨fun found => found.2.2, fun found => ⟨some, List.not_mem_nil, found⟩⟩

/-- A session with the usual options but for sequential names. -/
def sequentialSession : EditSession :=
  .ofContext (.ofOptions { PageOptions.usual with naming := .sequential }) true

/-- A diagram between raw markup, with a frame in it, that leaves the diagram alone. -/
theorem awaitedDiagrams_edit_raw :
    let source := "<b>x</b>\n<iframe>y</iframe>\n\n~~~mermaid\na<b\n~~~\n"
    let trees := sequentialSession.maker.trees source
    (¬ sequentialSession.maker.context.options.sanitizer.AsksForRel) ∧
      (∀ element ∈ elementsOf trees, element.IsRegular) ∧ '<' ∉ verbatimIn trees ∧
      ∃ pass next, sequentialSession.edit source = .ok (pass, next) ∧
        next.screen.awaitedDiagrams = [⟨"mermaid-1", "a<b\n"⟩] := by
  intro source trees
  have returns : ¬ sequentialSession.maker.context.options.sanitizer.AsksForRel :=
    Sanitizer.leavesRel_iff.mp (by decide)
  have regular : ∀ element ∈ elementsOf trees, element.IsRegular := by decide +kernel
  have verbatim : '<' ∉ verbatimIn trees := by decide +kernel
  obtain ⟨pass, next, edited, awaited, -⟩ := awaitedDiagrams_edit rfl returns regular verbatim
  have stand : firstNamed [] (diagramsIn trees) = [⟨"mermaid-1", "a<b\n"⟩] := by decide +kernel
  exact ⟨returns, regular, verbatim, pass, next, edited, awaited.trans stand⟩

/-- A tag that is left open is opened again in the place of a diagram, which then does not wait. -/
theorem unclosed_tag_hides_diagram :
    let source := "- x<p><b></p>\n  ~~~mermaid\n  y\n  ~~~\n"
    let conversion := convert (.ofText source) (.ofDiagramTag usualDiagramLanguage) .sequential
    (placesOf conversion.html.toList).map Placeholder.diagram = [⟨"mermaid-1", "y\n"⟩] ∧
      conversion.diagrams = [⟨"mermaid-1", "y\n"⟩] ∧
      ((sequentialSession.edit source).toOption.map fun both =>
        (both.1.page.diagrams, both.2.screen.awaitedDiagrams)) = some (conversion.diagrams, []) := by
  decide +kernel

end Galley
