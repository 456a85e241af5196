import Galley.Proofs.Code.DiagramPlaces
import Mathlib

/-!
# Diagrams on their way to the screen

* `renderDiagrams` — diagrams rendered one after the other, with markup between them;
* `renderDiagrams_spec` — their places in what is rendered;
* `awaitedDiagrams_renderDiagrams` — the screen waits for the diagrams as they were written.
-/

namespace Galley

open Galley.Code (CodeBlock Handler PassDiagrams)
open Galley.Diagram (NamedDiagram)
open Placeholder

/-- Diagrams rendered one after the other, each with the markup that follows it. -/
def renderDiagrams : List (CodeBlock × String) → PassDiagrams → String × PassDiagrams
  | [], diagrams => ("", diagrams)
  | (block, markup) :: rest, diagrams =>
    let (place, diagrams) := Handler.diagram.render block diagrams
    let (others, diagrams) := renderDiagrams rest diagrams
    (place ++ markup ++ others, diagrams)

/-- What is rendered begins with the place of the first diagram. -/
theorem toList_renderDiagrams_cons (block : CodeBlock) (markup : String) (rest : List (CodeBlock × String))
    (diagrams : PassDiagrams) :
    (renderDiagrams ((block, markup) :: rest) diagrams).1.toList =
      (NamedDiagram.place ⟨diagrams.ids.next.1, block.code⟩).chars ++ (['\n'] ++ (markup.toList ++
        (renderDiagrams rest (Handler.diagram.render block diagrams).2).1.toList)) := by
  have written := toList_diagramMarkup ⟨diagrams.ids.next.1, block.code⟩
  change (Handler.diagram.render block diagrams).1.toList = _ at written
  rw [renderDiagrams]
  simp only [String.toList_append, written, List.append_assoc]

theorem renderDiagrams_bracket (blocks : List (CodeBlock × String)) (diagrams : PassDiagrams) :
    (renderDiagrams blocks diagrams).1.toList = [] ∨
      ∃ rest, (renderDiagrams blocks diagrams).1.toList = '<' :: rest := by
  cases blocks with
  | nil => exact .inl rfl
  | cons first rest =>
    obtain ⟨block, markup⟩ := first
    rw [toList_renderDiagrams_cons, Placeholder.chars, opening]
    exact .inr ⟨_, rfl⟩

/-- The places in what is rendered are those of the new diagrams, which hold the code of the blocks. -/
theorem renderDiagrams_spec (blocks : List (CodeBlock × String)) {diagrams : PassDiagrams}
    (sequential : diagrams.Sequential) (plain : ∀ entry ∈ blocks, ¬ opening <:+: entry.2.toList) :
    let rendered := renderDiagrams blocks diagrams
    rendered.2.Sequential ∧ ∃ new,
      rendered.2.nodes = diagrams.nodes ++ new ∧ placesOf rendered.1.toList = new.map NamedDiagram.place ∧
        new.map NamedDiagram.source = blocks.map (·.1.code) := by
  induction blocks generalizing diagrams with
  | nil => exact ⟨sequential, [], by simp [renderDiagrams], by simp [renderDiagrams, placesOf], rfl⟩
  | cons first rest ih =>
    obtain ⟨block, markup⟩ := first
    obtain ⟨markupPlain, plain⟩ := List.forall_mem_cons.mp plain
    obtain ⟨stays, new, nodes, places, sources⟩ := ih (sequential.render .diagram block) plain
    have bracket := renderDiagrams_bracket rest (Handler.diagram.render block diagrams).2
    refine ⟨stays, ⟨diagrams.ids.next.1, block.code⟩ :: new, ?_, ?_, ?_⟩
    · rw [renderDiagrams, nodes]
      simp [PassDiagrams.nodes, Handler.render]
    · -- neither the line break nor the markup behind the place can begin another one
      have apart : Apart ['\n'] := .ofNotMem (by decide)
      have lineBreak := apart.clear (markup.toList ++
        (renderDiagrams rest (Handler.diagram.render block diagrams).2).1.toList)
      have between := Clear.ofNoInfix markupPlain bracket
      rw [toList_renderDiagrams_cons, placesOf_place (isReadable_place _), placesOf_append_of_clear lineBreak,
        placesOf_append_of_clear between, places, List.map_cons]
    · rw [List.map_cons, sources, List.map_cons]

/-- Places with different names all count. -/
theorem awaitedPlaces_eq {html : String} {nodes : List NamedDiagram}
    (places : placesOf html.toList = nodes.map NamedDiagram.place)
    (named : ∀ node ∈ nodes, ∃ n, node.id = sequentialId n) (distinct : (nodes.map NamedDiagram.id).Nodup) :
    awaitedPlaces html = nodes.map NamedDiagram.place := by
  have ids : (nodes.map NamedDiagram.place).map (·.diagram.id) = nodes.map NamedDiagram.id := by
    rw [List.map_map]
    refine List.map_congr_left fun node member => ?_
    obtain ⟨n, id⟩ := named node member
    rw [Function.comp_apply, diagram_place (id ▸ escapeAttribute_sequentialId n)]
  have all : distinctParts [] (pageParts html.toList) = pageParts html.toList := by
    refine distinctParts_eq_self (fun place member => ?_) (fun _ _ => List.not_mem_nil) ?_
    · rw [← placesOf, places] at member
      obtain ⟨node, listed, rfl⟩ := List.mem_map.mp member
      obtain ⟨n, id⟩ := named node listed
      exact id_place_ne_nil id
    · rw [← placesOf, places, ids]
      exact distinct
  rw [awaitedPlaces, all, ← placesOf, places]

/-- Diagrams come to the screen as they were written, whatever markup stands around them that begins no place: the
screen waits for the diagrams of the pass, in their order and with their code, and it shows what was rendered. -/
theorem awaitedDiagrams_renderDiagrams (generation : Nat) (before : String) (blocks : List (CodeBlock × String))
    (plainBefore : ¬ opening <:+: before.toList) (plain : ∀ entry ∈ blocks, ¬ opening <:+: entry.2.toList) :
    let (markup, diagrams) := renderDiagrams blocks (.ofIds .sequential)
    let screen := Screen.ofMarkup generation (before ++ markup)
    screen.awaitedDiagrams = diagrams.nodes ∧
      diagrams.nodes.map NamedDiagram.source = blocks.map (·.1.code) ∧
      diagrams.nodes.map NamedDiagram.id = PassDiagrams.sequentialIds blocks.length ∧
      screen.markup = before ++ markup := by
  obtain ⟨sequential, new, nodes, places, sources⟩ := renderDiagrams_spec blocks .ofIds plain
  have bracket := renderDiagrams_bracket blocks (.ofIds .sequential)
  generalize renderDiagrams blocks (.ofIds .sequential) = rendered at *
  obtain ⟨markup, diagrams⟩ := rendered
  dsimp only at sequential nodes places bracket ⊢
  change diagrams.nodes = [] ++ new at nodes
  rw [List.nil_append] at nodes
  subst nodes
  have count : diagrams.reversed.length = blocks.length := by
    have lengths := congrArg List.length sources
    simpa [PassDiagrams.nodes] using lengths
  have allPlaces : placesOf (before ++ markup).toList = diagrams.nodes.map NamedDiagram.place := by
    rw [String.toList_append, placesOf_append_of_clear (Clear.ofNoInfix plainBefore bracket), places]
  have awaited := awaitedPlaces_eq allPlaces (fun node => sequential.exists_id) sequential.nodup
  refine ⟨?_, sources, ?_, ?_⟩
  · rw [awaitedDiagrams_ofMarkup, awaited, List.map_map]
    conv_rhs => rw [← List.map_id diagrams.nodes]
    refine List.map_congr_left fun node member => ?_
    obtain ⟨n, id⟩ := sequential.exists_id member
    exact diagram_place (id ▸ escapeAttribute_sequentialId n)
  · rw [sequential.named, count]
  · rw [markup_ofMarkup_eq_iff, awaited]
    intro place member
    obtain ⟨node, listed, rfl⟩ := List.mem_map.mp member
    obtain ⟨n, id⟩ := sequential.exists_id listed
    exact respelled_place (id ▸ escapeAttribute_sequentialId n)

/-- Two diagrams, the first with text that looks like a reference, between paragraphs and an unfinished place. -/
theorem awaitedDiagrams_renderDiagrams_two :
    let blocks : List (CodeBlock × String) :=
      [(⟨"mermaid", "a&amp;<b>"⟩, "<p>x</p>"), (⟨"mermaid", "c"⟩, "<div class=\"mermaid\"")]
    let (markup, diagrams) := renderDiagrams blocks (.ofIds .sequential)
    let screen := Screen.ofMarkup 1 ("<div class" ++ markup)
    (¬ opening <:+: "<div class".toList) ∧ (∀ entry ∈ blocks, ¬ opening <:+: entry.2.toList) ∧
      screen.awaitedDiagrams = diagrams.nodes ∧ diagrams.nodes.map NamedDiagram.source = ["a&amp;<b>", "c"] ∧
      diagrams.nodes.map NamedDiagram.id = ["mermaid-1", "mermaid-2"] ∧
      screen.markup = "<div class" ++ markup := by
  have plainBefore : ¬ opening <:+: "<div class".toList := by decide
  have plain : ∀ entry ∈ [((⟨"mermaid", "a&amp;<b>"⟩ : CodeBlock), "<p>x</p>"),
      (⟨"mermaid", "c"⟩, "<div class=\"mermaid\"")], ¬ opening <:+: entry.2.toList := by decide
  obtain ⟨awaited, sources, ids, shown⟩ := awaitedDiagrams_renderDiagrams 1 "<div class" _ plainBefore plain
  exact ⟨plainBefore, plain, awaited, sources, ids, shown⟩

end Galley
