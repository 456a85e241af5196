import Galley.Html.Dom
import Mathlib

/-!
# Elements in a document

Cells move while a document is built, but what they hold does not change, and nothing ever goes around the root.

* `elementsOf` — the elements of some trees;
* `Dom.Holds` — all elements of a document but its root are of some kind;
* `Dom.Holds.move`, `Dom.Holds.addText` — moves keep it so;
* `Dom.Holds.content` — then so are the elements of the finished trees.
-/

namespace Galley.Html

mutual

/-- The elements of a tree. -/
def Node.elements : Node → List Element
  | .text _ => []
  | .element element content => element :: elementsOf content

/-- The elements of some trees. -/
def elementsOf : List Node → List Element
  | [] => []
  | node :: rest => node.elements ++ elementsOf rest

end

theorem elementsOf_append (left right : List Node) :
    elementsOf (left ++ right) = elementsOf left ++ elementsOf right := by
  induction left with
  | nil => rfl
  | cons node rest ih => rw [List.cons_append, elementsOf, elementsOf, ih, List.append_assoc]

theorem elementsOf_flatMap {α : Type} (items : List α) (trees : α → List Node) :
    elementsOf (items.flatMap trees) = items.flatMap fun item => elementsOf (trees item) := by
  induction items with
  | nil => rfl
  | cons item rest ih => rw [List.flatMap_cons, elementsOf_append, ih, List.flatMap_cons]

variable {kind : Element → Prop} {dom : Dom}

namespace Dom

/-- All elements but the root are of some kind, and no cell holds the root. -/
structure Holds (kind : Element → Prop) (dom : Dom) : Prop where
  /-- The elements are of the kind. -/
  elements : ∀ (id : Nat) (cell : Cell) (element : Element), dom[id]? = some cell → id ≠ 0 →
    cell.kind = .element element → kind element
  /-- The root stands in nothing. -/
  apart : ∀ (id : Nat) (cell : Cell), dom[id]? = some cell → 0 ∉ cell.children
  /-- There is a root. -/
  rooted : dom.size ≠ 0

namespace Holds

theorem empty : empty.Holds kind where
  elements id cell element found inner := by
    have outside : Dom.empty.size ≤ id := Nat.one_le_iff_ne_zero.mpr inner
    rw [Array.getElem?_eq_none outside] at found
    cases found
  apart id cell found := by
    obtain ⟨-, rfl⟩ := Array.getElem?_eq_some_iff.mp found
    simp [Dom.empty]
  rooted := Nat.one_ne_zero

/-- A change that makes no new element and puts the root nowhere. -/
theorem change (holds : dom.Holds kind) (id : Nat) (f : Cell → Cell)
    (same : ∀ cell element, (f cell).kind = .element element → cell.kind = .element element)
    (apart : ∀ cell, 0 ∉ cell.children → 0 ∉ (f cell).children) : (dom.change id f).Holds kind := by
  -- Every cell is an old one, changed or not.
  have old : ∀ (other : Nat) (cell : Cell), (dom.change id f)[other]? = some cell →
      ∃ before, dom[other]? = some before ∧ (cell = f before ∨ cell = before) := by
    intro other cell found
    rw [Dom.change, Array.getElem?_modify] at found
    split at found
    · obtain ⟨before, here, made⟩ := Option.map_eq_some_iff.mp found
      exact ⟨before, here, .inl made.symm⟩
    · exact ⟨cell, found, .inr rfl⟩
  refine ⟨fun other cell element found inner made => ?_, fun other cell found => ?_, ?_⟩
  · obtain ⟨before, here, rfl | rfl⟩ := old other cell found
    · exact holds.elements other before element here inner (same before element made)
    · exact holds.elements other cell element here inner made
  · obtain ⟨before, here, rfl | rfl⟩ := old other cell found
    · exact apart before (holds.apart other before here)
    · exact holds.apart other cell here
  · rw [Dom.change, Array.size_modify]
    exact holds.rooted

theorem changeParent (holds : dom.Holds kind) (id : Nat) (parent : Option Nat) :
    (dom.change id fun cell => { cell with parent }).Holds kind :=
  holds.change id _ (fun _ _ is => is) fun _ apart => apart

theorem changeChildren (holds : dom.Holds kind) (id : Nat) (f : Array Nat → Array Nat)
    (apart : ∀ ids, 0 ∉ ids → 0 ∉ f ids) :
    (dom.change id fun cell => { cell with children := f cell.children }).Holds kind :=
  holds.change id _ (fun _ _ is => is) fun cell => apart cell.children

/-- A new cell. Its number is not that of the root. -/
theorem create (holds : dom.Holds kind) {content : CellKind}
    (fits : ∀ element, content = .element element → kind element) :
    (dom.create content).1.Holds kind ∧ (dom.create content).2 ≠ 0 := by
  have made : ∀ (id : Nat) (cell : Cell), (dom.create content).1[id]? = some cell →
      dom[id]? = some cell ∨ cell = ⟨content, none, #[]⟩ := by
    intro id cell found
    rw [Dom.create, Array.getElem?_push] at found
    split at found
    · exact .inr (Option.some.inj found).symm
    · exact .inl found
  refine ⟨⟨fun id cell element found inner is => ?_, fun id cell found => ?_, ?_⟩, holds.rooted⟩
  · rcases made id cell found with old | rfl
    · exact holds.elements id cell element old inner is
    · exact fits element is
  · rcases made id cell found with old | rfl
    · exact holds.apart id cell old
    · simp
  · simp [Dom.create]

theorem createElement (holds : dom.Holds kind) {element : Element} (is : kind element) :
    (dom.create (.element element)).1.Holds kind ∧ (dom.create (.element element)).2 ≠ 0 :=
  holds.create fun _ same => CellKind.element.inj same ▸ is

theorem createText (holds : dom.Holds kind) (text : String) :
    (dom.create (.text text)).1.Holds kind ∧ (dom.create (.text text)).2 ≠ 0 :=
  holds.create fun _ absent => by cases absent

theorem detach (holds : dom.Holds kind) (id : Nat) : (dom.detach id).Holds kind := by
  unfold Dom.detach
  split
  next => exact holds
  next parent _ =>
    refine (holds.changeChildren parent (Array.filter (· != id)) fun ids apart => ?_).changeParent id none
    exact fun member => apart (Array.mem_filter.mp member).1

/-- Anything but the root can be moved. -/
theorem move (holds : dom.Holds kind) {id : Nat} (inner : id ≠ 0) (place : Place) :
    (dom.move id place).Holds kind := by
  have detached := holds.detach id
  unfold Dom.move
  cases place with
  | last parent =>
    refine (detached.changeChildren parent (Array.push · id) fun ids apart => ?_).changeParent id (some parent)
    exact fun member => (Array.mem_push.mp member).elim apart fun same => inner same.symm
  | before parent next =>
    refine (detached.changeChildren parent (fun ids => (ids.toList.flatMap fun other =>
      if other == next then [id, other] else [other]).toArray) fun ids apart => ?_).changeParent id (some parent)
    simp only [List.mem_toArray, List.mem_flatMap, not_exists, not_and]
    intro other member
    have old : other ≠ 0 := fun same => apart (same ▸ Array.mem_toList_iff.mp member)
    split
    · simp [inner.symm, old.symm]
    · simp [old.symm]

theorem moveChildren (holds : dom.Holds kind) (source target : Nat) :
    (dom.moveChildren source target).Holds kind := by
  have apart : 0 ∉ (dom.children source).toList := by
    rw [Array.mem_toList_iff, Dom.children]
    cases found : dom[source]? with
    | none => simp
    | some cell => exact holds.apart source cell found
  unfold Dom.moveChildren
  rw [← Array.foldl_toList]
  generalize (dom.children source).toList = ids at apart
  induction ids generalizing dom with
  | nil => exact holds
  | cons id rest ih =>
    obtain ⟨inner, others⟩ := not_or.mp (mt List.mem_cons.mpr apart)
    exact ih (holds.move (Ne.symm inner) _) others

theorem addText (holds : dom.Holds kind) (place : Place) (text : String) :
    (dom.addText place text).Holds kind := by
  have fresh : ((dom.create (.text text)).1.move (dom.create (.text text)).2 place).Holds kind := by
    obtain ⟨created, inner⟩ := holds.createText text
    exact created.move inner place
  unfold Dom.addText
  simp only
  split
  · exact fresh
  · split
    · exact holds.change _ _ (fun _ _ absent => by cases absent) fun _ apart => apart
    · exact fresh

/-! ## Trees -/

theorem tree (holds : dom.Holds kind) (fuel : Nat) {id : Nat} (inner : id ≠ 0) :
    ∀ element ∈ elementsOf (dom.tree fuel id), kind element := by
  induction fuel generalizing id with
  | zero => exact fun _ absent => absurd absent List.not_mem_nil
  | succ fuel ih =>
    unfold Dom.tree
    split
    next => exact fun _ absent => absurd absent List.not_mem_nil
    next cell found =>
    split
    next => exact fun _ absent => absurd absent List.not_mem_nil
    next own is =>
      have this := holds.elements id cell own found inner is
      split
      · simpa [elementsOf, Node.elements] using this
      · intro element member
        rw [elementsOf, elementsOf, List.append_nil, Node.elements, elementsOf_flatMap] at member
        rcases List.mem_cons.mp member with rfl | below
        · exact this
        · obtain ⟨child, listed, deeper⟩ := List.mem_flatMap.mp below
          have apart := holds.apart id cell found
          refine ih (fun same => apart ?_) element deeper
          exact same ▸ Array.mem_toList_iff.mp listed

/-- The elements of the finished trees. The root is not among them. -/
theorem content (holds : dom.Holds kind) : ∀ element ∈ elementsOf dom.content, kind element := by
  intro element member
  rw [Dom.content, elementsOf_flatMap] at member
  obtain ⟨child, listed, inside⟩ := List.mem_flatMap.mp member
  refine holds.tree _ (fun same => ?_) element inside
  rw [same, Array.mem_toList_iff, Dom.children] at listed
  cases found : dom[0]? with
  | none => simp [found] at listed
  | some cell =>
    rw [found] at listed
    exact holds.apart 0 cell found listed

end Holds
end Dom
end Galley.Html
