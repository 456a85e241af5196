import Galley.Html.Node

/-!
# Documents while they are built

Elements move while a tree is built, so they stand in a table and know each other by number.

* `Cell`, `Dom` — the table;
* `Dom.append`, `Dom.insertBefore`, `Dom.detach` — the moves;
* `Dom.addText` — adds text, joined with the text before it;
* `Dom.content` — the finished trees.
-/

namespace Galley.Html

/-- What a cell of the table holds. -/
inductive CellKind where
  /-- Text. -/
  | text (text : String)
  /-- An element. -/
  | element (element : Element)
  deriving Repr

/-- A cell of the table. -/
structure Cell where
  /-- What it holds. -/
  kind : CellKind
  /-- The number of the cell that it stands in. -/
  parent : Option Nat
  /-- The numbers of the cells in it. -/
  children : Array Nat
  deriving Repr

/-- The cells, by their numbers. Cell zero is the root. -/
abbrev Dom := Array Cell

/-- Where something new goes. -/
inductive Place where
  /-- Last in an element. -/
  | last (parent : Nat)
  /-- In front of something. -/
  | before (parent next : Nat)
  deriving Repr

namespace Dom

/-- A document with a root only. -/
def empty : Dom := #[⟨.element ⟨.html, "html", []⟩, none, #[]⟩]

/-- The document with another cell, and its number. -/
def create (dom : Dom) (kind : CellKind) : Dom × Nat := (dom.push ⟨kind, none, #[]⟩, dom.size)

/-- The document with a cell changed. -/
def change (dom : Dom) (id : Nat) (f : Cell → Cell) : Dom := dom.modify id f

/-- The number of the cell that a cell stands in. -/
def parent? (dom : Dom) (id : Nat) : Option Nat := dom[id]?.bind Cell.parent

/-- The cells in a cell. -/
def children (dom : Dom) (id : Nat) : Array Nat := (dom[id]?.map Cell.children).getD #[]

/-- Takes a cell out of the one it stands in. -/
def detach (dom : Dom) (id : Nat) : Dom :=
  match dom.parent? id with
  | none => dom
  | some parent =>
    (dom.change parent fun cell => { cell with children := cell.children.filter (· != id) }).change id
      fun cell => { cell with parent := none }

/-- Moves a cell to a place. -/
def move (dom : Dom) (id : Nat) (place : Place) : Dom :=
  let dom := dom.detach id
  match place with
  | .last parent =>
    (dom.change parent fun cell => { cell with children := cell.children.push id }).change id
      fun cell => { cell with parent := some parent }
  | .before parent next =>
    let insert (ids : Array Nat) : Array Nat :=
      (ids.toList.flatMap fun other => if other == next then [id, other] else [other]).toArray
    (dom.change parent fun cell => { cell with children := insert cell.children }).change id
      fun cell => { cell with parent := some parent }

/-- Moves all that is in one cell to the end of another. -/
def moveChildren (dom : Dom) (source target : Nat) : Dom :=
  (dom.children source).foldl (fun dom id => dom.move id (.last target)) dom

/-- The cell in front of a place. -/
def previous? (dom : Dom) : Place → Option Nat
  | .last parent => (dom.children parent).back?
  | .before parent next => ((dom.children parent).toList.takeWhile (· != next)).getLast?

/-- Adds text at a place. Text just in front of it goes on. -/
def addText (dom : Dom) (place : Place) (text : String) : Dom :=
  let fresh : Unit → Dom := fun _ =>
    let (dom, id) := dom.create (.text text)
    dom.move id place
  match dom.previous? place with
  | none => fresh ()
  | some id =>
    match dom[id]?.map Cell.kind with
    | some (.text old) => dom.change id fun cell => { cell with kind := .text (old ++ text) }
    | _ => fresh ()

/-- The tree of a cell. What is in a template is not part of it. `fuel` bounds the depth. -/
def tree (dom : Dom) : (fuel : Nat) → Nat → List Node
  | 0, _ => []
  | fuel + 1, id =>
    match dom[id]? with
    | none => []
    | some cell =>
      match cell.kind with
      | .text text => [.text text]
      | .element element =>
        if element.space == .html && element.name == "template" then [.element element []]
        else [.element element (cell.children.toList.flatMap (tree dom fuel))]

/-- The trees in the root. -/
def content (dom : Dom) : List Node :=
  (dom.children 0).toList.flatMap (dom.tree (dom.size + 1))

end Dom

end Galley.Html
