import Galley.Code.Registry
import Galley.Proofs.Session.Escaped
import Mathlib

/-!
# The places that diagrams get

* `NamedDiagram.place` — the place of a diagram, and `toList_diagramMarkup`, that it is written as one;
* `escapeAttribute_next` — no name has to be escaped;
* `sequentialId` — the names that diagrams get one after the other;
* `PassDiagrams.Sequential` — diagrams that are named in order, and `Sequential.render`, that they stay so.
-/

namespace Galley

open Galley.Diagram (NamedDiagram Namer Naming)

/-! ## The place of a diagram -/

/-- The place of a diagram in a page. -/
def Diagram.NamedDiagram.place (node : NamedDiagram) : Placeholder where
  id := (Text.escapeAttribute node.id).toList
  body := (Text.escapeText node.source).toList

theorem isReadable_place (node : NamedDiagram) : node.place.IsReadable where
  id := not_mem_escapeAttribute node.id
  body := not_mem_escapeText node.source

/-- What is written for a diagram is its place and a line break. -/
theorem toList_diagramMarkup (node : NamedDiagram) :
    (Code.diagramMarkup node.id node.source).toList = node.place.chars ++ ['\n'] := by
  unfold Code.diagramMarkup Placeholder.chars NamedDiagram.place
  simp only [String.toList_append, List.append_assoc, List.cons_append]
  rfl

/-- The text in a place is decoded to the text of the diagram. -/
theorem source_place (node : NamedDiagram) : node.place.diagram.source = node.source := by
  simp only [Placeholder.diagram, NamedDiagram.place, Text.escapeText, String.toList_ofList,
    Text.decodeChars_escapeText, String.ofList_toList]

/-- If there is nothing to escape in its name, the diagram of a place is the one that it was made for. -/
theorem diagram_place {node : NamedDiagram} (plain : Text.escapeAttribute node.id = node.id) :
    node.place.diagram = node := by
  have id : node.place.diagram.id = node.id := by
    rw [Placeholder.diagram, NamedDiagram.place, plain, String.ofList_toList]
  exact congrArg₂ NamedDiagram.mk id (source_place node)

/-- Then it is also written as it is read. -/
theorem respelled_place {node : NamedDiagram} (plain : Text.escapeAttribute node.id = node.id) :
    node.place.respelled = node.place := by
  have whole := congrArg NamedDiagram.place (diagram_place plain)
  simpa [NamedDiagram.place, Placeholder.diagram, Placeholder.respelled, Text.escapeAttribute, Text.escapeText]
    using whole

/-! ## Names -/

/-- Whether a character is escaped in an attribute. -/
def isEscaped (c : Char) : Bool := c == '<' || c == '>' || c == '\x22' || c == '&'

theorem escapeAttribute_eq_self {text : String} (plain : ∀ c ∈ text.toList, isEscaped c = false) :
    Text.escapeAttribute text = text := by
  have absent {c : Char} (special : isEscaped c = true) : c ∉ text.toList := fun member => by
    rw [plain c member] at special
    cases special
  have same := (escapeAttribute_eq_self_iff (absent (by decide)) (absent (by decide)) (absent (by decide))).mpr
    (absent (by decide))
  rw [Text.escapeAttribute, same, String.ofList_toList]

theorem plain_of_all {text : String} (all : text.toList.all (fun c => !isEscaped c) = true) :
    ∀ c ∈ text.toList, isEscaped c = false := by
  simpa using all

/-- A random name is made of digits and letters. -/
theorem plain_hexDigits (number width : Nat) : ∀ c ∈ Text.hexDigits number width, isEscaped c = false := by
  induction width generalizing number with
  | zero => exact fun _ absent => absurd absent List.not_mem_nil
  | succ width ih =>
    unfold Text.hexDigits
    have digits : ∀ d < 16, isEscaped (Nat.digitChar d) = false := by decide
    intro c member
    rcases List.mem_append.mp member with earlier | last
    · exact ih _ c earlier
    · rw [List.mem_singleton.mp last]
      exact digits _ (Nat.mod_lt _ (by decide))

theorem plain_toString (n : Nat) : ∀ c ∈ (toString n).toList, isEscaped c = false := by
  intro c member
  cases special : isEscaped c with
  | false => rfl
  | true =>
    have other : c.isDigit = false := by
      simp only [isEscaped, Bool.or_eq_true, beq_iff_eq] at special
      rcases special with ((rfl | rfl) | rfl) | rfl <;> rfl
    exact absurd member (not_mem_toString other n)

/-- There is nothing to escape in a name, whatever the diagrams are named by. -/
theorem escapeAttribute_next (namer : Namer) : Text.escapeAttribute namer.next.1 = namer.next.1 := by
  refine escapeAttribute_eq_self ?_
  have start : ∀ c ∈ Diagram.idStart.toList, isEscaped c = false := plain_of_all (by decide)
  have version : isEscaped '4' = false := by decide
  unfold Namer.next
  simp only [String.toList_append, List.forall_mem_append]
  refine ⟨start, ?_⟩
  split
  · exact plain_toString _
  · simp only [Diagram.randomId, String.toList_ofList, List.forall_mem_append, List.forall_mem_cons]
    exact ⟨⟨⟨plain_hexDigits _ _, version, plain_hexDigits _ _⟩, plain_hexDigits _ _⟩, plain_hexDigits _ _⟩

/-! ## Names in order -/

/-- The name of a diagram by its number. -/
def sequentialId (n : Nat) : String := Diagram.idStart ++ toString n

theorem sequentialId_injective : Function.Injective sequentialId := by
  intro m n same
  have digits := congrArg String.toList same
  rw [sequentialId, sequentialId, String.toList_append, String.toList_append, List.append_right_inj,
    String.toList_inj] at digits
  exact Nat.repr_inj.mp digits

theorem escapeAttribute_sequentialId (n : Nat) : Text.escapeAttribute (sequentialId n) = sequentialId n := by
  refine escapeAttribute_eq_self ?_
  rw [sequentialId, String.toList_append, List.forall_mem_append]
  exact ⟨plain_of_all (by decide), plain_toString n⟩

theorem id_place_ne_nil {node : NamedDiagram} {n : Nat} (named : node.id = sequentialId n) : node.place.id ≠ [] := by
  rw [NamedDiagram.place, named, escapeAttribute_sequentialId, sequentialId, String.toList_append]
  exact List.append_ne_nil_of_left_ne_nil (by decide) _

namespace Code.PassDiagrams

/-- The names of some diagrams if they are named in order. -/
def sequentialIds (count : Nat) : List String := (List.range count).map fun i => sequentialId (i + 1)

/-- The diagrams of a pass so far are named in order. -/
structure Sequential (diagrams : PassDiagrams) : Prop where
  /-- As many names were given out as there are diagrams. -/
  ids : diagrams.ids = ⟨.sequential, diagrams.reversed.length⟩
  /-- They are the first ones. -/
  named : diagrams.nodes.map NamedDiagram.id = sequentialIds diagrams.reversed.length

namespace Sequential

variable {diagrams : PassDiagrams}

theorem ofIds : Sequential (.ofIds .sequential) := ⟨rfl, rfl⟩

/-- One more diagram gets the next name. -/
theorem next (sequential : Sequential diagrams) (code : String) :
    let id := sequentialId (diagrams.reversed.length + 1)
    Sequential ⟨diagrams.ids.next.2, ⟨id, code⟩ :: diagrams.reversed⟩ ∧ diagrams.ids.next.1 = id := by
  refine ⟨⟨?_, ?_⟩, ?_⟩
  · rw [sequential.ids]
    rfl
  · have named := sequential.named
    unfold PassDiagrams.nodes sequentialIds at named ⊢
    rw [List.reverse_cons, List.map_append, named, List.length_cons, List.range_succ, List.map_append]
    rfl
  · rw [sequential.ids]
    rfl

theorem exists_id (sequential : Sequential diagrams) {node : NamedDiagram} (member : node ∈ diagrams.nodes) :
    ∃ n, node.id = sequentialId n := by
  have named : node.id ∈ diagrams.nodes.map NamedDiagram.id := List.mem_map_of_mem member
  rw [sequential.named] at named
  obtain ⟨i, -, same⟩ := List.mem_map.mp named
  exact ⟨i + 1, same.symm⟩

/-- A diagram is named by its number. -/
theorem id_getElem (sequential : Sequential diagrams) {i : Nat} (within : i < diagrams.nodes.length) :
    diagrams.nodes[i].id = sequentialId (i + 1) := by
  have mapped : i < (diagrams.nodes.map NamedDiagram.id).length := by rwa [List.length_map]
  rw [← List.getElem_map NamedDiagram.id (h := mapped), List.getElem_of_eq sequential.named]
  simp only [sequentialIds, List.getElem_map, List.getElem_range]

/-- No name is given twice. -/
theorem nodup (sequential : Sequential diagrams) : (diagrams.nodes.map NamedDiagram.id).Nodup := by
  rw [sequential.named]
  exact List.nodup_range.map fun i j same => Nat.succ_injective (sequentialId_injective same)

/-- A block that is rendered leaves the names in order. -/
theorem render (sequential : Sequential diagrams) (handler : Handler) (block : CodeBlock) :
    Sequential (handler.render block diagrams).2 := by
  cases handler with
  | highlight => exact sequential
  | diagram =>
    obtain ⟨next, id⟩ := sequential.next block.code
    rwa [← id] at next

end Sequential

end Code.PassDiagrams

end Galley
