import Galley.Proofs.Html.Parts

/-!
# Elements read from tags

The parts of markup are read into elements. A closing tag has to close the innermost element that is open.

* `Tree` — an element with what stands in it, or a text;
* `OpenTag`, `Reading` — what has been read, and the elements that are still open;
* `Reading.read?`, `Reading.readAll?` — a part is read, and all parts of some markup;
* `Tree.ofParts?` — the elements of markup in which each tag is closed in its order;
* `Tree.ListsHoldItems` — lists hold items and nothing else, and items stand in lists only;
* `ListItem`, `Tree.items` — the items of all lists in the order of the document, and how deep each of them stands;
* `Reading.items`, `itemsSoFar_close` — the items that have been read, and that closing an element changes nothing;
* `Reaches` — parts that are read, the items that they add, and where they lead.
-/

namespace Galley.Html

/-- An element with what stands in it, or a text. -/
inductive Tree where
  /-- An element. -/
  | element (name : String) (attributes : List (String × String)) (inner : List Tree)
  /-- A text. -/
  | text (shown : String)
  deriving Repr

/-- An element that is open, with what stands in front of it in the element around it, the last one first. -/
structure OpenTag where
  /-- The name of the element. -/
  name : String
  /-- Its attributes. -/
  attributes : List (String × String)
  /-- What stands in front of it. -/
  before : List Tree

/-- What has been read of some markup. -/
structure Reading where
  /-- What stands in the innermost element that is open, the last one first. -/
  inner : List Tree
  /-- The elements that are open, the innermost one first. -/
  opened : List OpenTag

namespace Reading

/-- A part is read. -/
def read? (reading : Reading) : Part → Option Reading
  | .text shown => some ⟨.text shown :: reading.inner, reading.opened⟩
  | .start name attributes => some ⟨[], ⟨name, attributes, reading.inner⟩ :: reading.opened⟩
  | .stop name =>
    match reading.opened with
    | [] => none
    | tag :: around =>
      if name = tag.name then some ⟨.element tag.name tag.attributes reading.inner.reverse :: tag.before, around⟩ else none

/-- Parts are read one after the other. -/
def readAll? (reading : Reading) (parts : List Part) : Option Reading := parts.foldlM read? reading

theorem readAll?_append (reading : Reading) (front back : List Part) :
    reading.readAll? (front ++ back) = (reading.readAll? front).bind fun next => next.readAll? back :=
  List.foldlM_append

end Reading

/-- The elements of markup in which each element is closed before the one around it. -/
def Tree.ofParts? (parts : List Part) : Option (List Tree) :=
  match (Reading.mk [] []).readAll? parts with
  | some ⟨inner, []⟩ => some inner.reverse
  | _ => none

/-! ## Lists -/

/-- Whether this is an item of a list. -/
def Tree.isItem : Tree → Bool
  | .element name _ _ => name == "li"
  | .text _ => false

/-- Whether this is a list. -/
def Tree.isList : Tree → Bool
  | .element name _ _ => name == "ul"
  | .text _ => false

/-- All that stands in a list is an item, and an item stands nowhere else. -/
inductive Tree.ListsHoldItems : Tree → Prop where
  | text {shown : String} : ListsHoldItems (.text shown)
  | element {name : String} {attributes : List (String × String)} {inner : List Tree}
      (items : ∀ child ∈ inner, child.isItem = (name == "ul")) (within : ∀ child ∈ inner, child.ListsHoldItems) :
      ListsHoldItems (.element name attributes inner)

/-- An item of a list. -/
structure ListItem where
  /-- In how many lists it stands. -/
  depth : Nat
  /-- Its attributes. -/
  attributes : List (String × String)
  /-- What stands in it, the lists left out. -/
  said : List Tree

/-- What an element is as an item. An item that has no attributes and holds only lists is none. -/
def ownItems (depth : Nat) (name : String) (attributes : List (String × String)) (inner : List Tree) : List ListItem :=
  let said := inner.filter fun child => !child.isList
  if name = "li" ∧ ¬ (attributes = [] ∧ said = []) then [⟨depth, attributes, said⟩] else []

mutual

/-- The items of the lists in an element, which stands in some lists itself. -/
def Tree.items (depth : Nat) : Tree → List ListItem
  | .text _ => []
  | .element name attributes inner =>
    ownItems (depth + if name = "ul" then 1 else 0) name attributes inner ++
      Tree.itemsOf (depth + if name = "ul" then 1 else 0) inner

/-- The items of the lists in some elements. -/
def Tree.itemsOf (depth : Nat) : List Tree → List ListItem
  | [] => []
  | tree :: rest => tree.items depth ++ Tree.itemsOf depth rest

end

theorem Tree.itemsOf_append (depth : Nat) (front back : List Tree) :
    Tree.itemsOf depth (front ++ back) = Tree.itemsOf depth front ++ Tree.itemsOf depth back := by
  induction front with
  | nil => rfl
  | cons tree rest ih => rw [List.cons_append, itemsOf, itemsOf, ih, List.append_assoc]

/-- A list in an item, or an item in a list, does not belong to what the element around it says. -/
theorem ownItems_concat (depth : Nat) {name : String} (attributes : List (String × String)) (inner : List Tree) {last : Tree}
    (quiet : name = "li" → last.isList = true) :
    ownItems depth name attributes (inner ++ [last]) = ownItems depth name attributes inner := by
  unfold ownItems
  by_cases item : name = "li"
  · simp [List.filter_append, quiet item]
  · simp [item]

/-! ## While tags are open -/

/-- How many lists are open. -/
def listDepth (opened : List OpenTag) : Nat := opened.countP fun tag => tag.name == "ul"

/-- The items that stand in some open elements, and in what has been read of the innermost one. -/
def itemsSoFar (inner : List Tree) : List OpenTag → List ListItem
  | [] => Tree.itemsOf 0 inner.reverse
  | tag :: around =>
    itemsSoFar tag.before around ++ (ownItems (listDepth (tag :: around)) tag.name tag.attributes inner.reverse ++
      Tree.itemsOf (listDepth (tag :: around)) inner.reverse)

/-- The items that have been read. -/
def Reading.items (reading : Reading) : List ListItem := itemsSoFar reading.inner reading.opened

theorem listDepth_cons (tag : OpenTag) (around : List OpenTag) :
    listDepth (tag :: around) = listDepth around + if tag.name = "ul" then 1 else 0 := by
  simp [listDepth, List.countP_cons]

/-- An element is closed, and its items are those that have been read. -/
theorem itemsSoFar_close (inner : List Tree) (tag : OpenTag) (around : List OpenTag)
    (quiet : ∀ outer ∈ around.head?, outer.name = "li" → tag.name = "ul") :
    itemsSoFar (.element tag.name tag.attributes inner.reverse :: tag.before) around = itemsSoFar inner (tag :: around) := by
  rw [itemsSoFar, listDepth_cons]
  -- The element around it may be an item, and then what it says of itself must not change.
  cases around with
  | nil => simp [itemsSoFar, Tree.itemsOf_append, Tree.itemsOf, Tree.items, listDepth]
  | cons outer around =>
    rw [itemsSoFar, itemsSoFar, List.reverse_cons, Tree.itemsOf_append, ownItems_concat]
    · simp [Tree.itemsOf, Tree.items]
    · intro item
      simpa [Tree.isList] using quiet outer rfl item

/-! ## From one place to another -/

variable {reading : Reading} {a b parts : List Part} {items first others : List ListItem} {goal middle : Reading → Prop}

/-- Parts can be read from a place on. They add some items and lead to a place of some kind. -/
def Reaches (reading : Reading) (parts : List Part) (items : List ListItem) (goal : Reading → Prop) : Prop :=
  ∃ next, reading.readAll? parts = some next ∧ next.items = reading.items ++ items ∧ goal next

namespace Reaches

theorem here (holds : goal reading) : Reaches reading [] [] goal := ⟨reading, rfl, (List.append_nil _).symm, holds⟩

theorem trans (left : Reaches reading a first middle) (right : ∀ next, middle next → Reaches next b others goal) :
    Reaches reading (a ++ b) (first ++ others) goal := by
  obtain ⟨next, reads, adds, between⟩ := left
  obtain ⟨last, reads', adds', holds⟩ := right next between
  refine ⟨last, ?_, by rw [adds', adds, List.append_assoc], holds⟩
  rw [Reading.readAll?_append, reads]
  exact reads'

/-- The same parts over and over, each time from a place of a kind to one of the next kind. -/
theorem repeated {marks : List Part} {n : Nat} (kind : Nat → Reading → Prop)
    (step : ∀ k < n, ∀ next, kind k next → Reaches next marks [] (kind (k + 1))) (holds : kind 0 reading) :
    Reaches reading (List.replicate n marks).flatten [] (kind n) := by
  induction n generalizing kind reading with
  | zero => exact here holds
  | succ n ih =>
    rw [List.replicate_succ, List.flatten_cons]
    -- Behind the first of them the kinds are counted from the next one on.
    refine (step 0 n.succ_pos reading holds).trans fun next there => ?_
    exact ih (fun k => kind (k + 1)) (fun k below => step (k + 1) (Nat.succ_lt_succ below)) there

end Reaches

end Galley.Html
