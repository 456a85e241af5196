import Galley.Proofs.Html.Slots
import Galley.Proofs.Html.Tree
import Mathlib.Order.Bounds.Basic

/-!
# Tables of contents as lists

The writer of a table of contents knows only the level of the entry before. It opens and closes lists so that each entry
stands in as many of them as its level says.

* `listItem`, `navigation` — an entry as an item, and a table of contents around its items;
* `OpenLists`, `InList`, `InItem` — the lists that are open, between two of their items and within one;
* `InList.opensLevel`, `InItem.opensList`, `InItem.closes`, `InList.closesList`, `InList.writesEntry` — the steps of the writer;
* `Standing`, `Standing.steps`, `Standing.writesItems` — where the writer stands between two entries, and all entries;
* `checkedMarkup?`, `checkedItems?_eq` — the same writer, with levels that have to stay in a byte;
* `contentsMarkup_nests_entries` — a table of contents holds the entries, each in its list.
-/

namespace Galley.Heading

open Galley.Html

variable {base depth current level : Nat} {reading : Reading} {opened : List OpenTag} {inner before said : List Tree}
  {attributes : List (String × String)} {entry : ContentsEntry} {entries : List ContentsEntry}

/-! ## What is written -/

/-- The link of an entry. -/
def linkTree (entry : ContentsEntry) : Tree :=
  .element "a" [("href", "#" ++ entry.anchor)] (if entry.text = "" then [] else [.text entry.text])

/-- An entry as an item of a list: a link with the anchor and the text of the entry, in an item with its level. -/
def listItem (depth : Nat) (entry : ContentsEntry) : ListItem :=
  ⟨depth, [("class", "toc-level-" ++ toString entry.level)], [linkTree entry]⟩

/-- The title of a table of contents. -/
def headline : Tree := .element "h4" [] [.text "Table of Contents"]

/-- A table of contents: a title, and a list. -/
def navigation (items : List Tree) : Tree :=
  .element "nav" [("class", "table-of-contents")] [headline, .element "ul" [] items]

/-! ## Where the writer stands -/

/-- All of some elements are items, or none is, and lists in them hold items. -/
def AllItems (isItem : Bool) (trees : List Tree) : Prop := ∀ tree ∈ trees, tree.isItem = isItem ∧ tree.ListsHoldItems

/-- Lists that are open, each of them in an item of the one around it. -/
inductive OpenLists : Nat → List OpenTag → Prop where
  | outermost : OpenLists 1 [⟨"ul", [], [headline]⟩, ⟨"nav", [("class", "table-of-contents")], []⟩]
  | deeper {depth : Nat} {opened : List OpenTag} {attributes : List (String × String)} {before said : List Tree}
      (around : OpenLists depth opened) (siblings : AllItems true before) (beside : AllItems false said) :
      OpenLists (depth + 1) (⟨"ul", [], said⟩ :: ⟨"li", attributes, before⟩ :: opened)

/-- Between the items of a list, which stands in some others. -/
inductive InList (depth : Nat) : Reading → Prop where
  | intro {inner : List Tree} {opened : List OpenTag} (lists : OpenLists depth opened) (items : AllItems true inner) :
      InList depth ⟨inner, opened⟩

/-- In an item of such a list. -/
inductive InItem (depth : Nat) : Reading → Prop where
  | intro {inner before : List Tree} {attributes : List (String × String)} {opened : List OpenTag}
      (lists : OpenLists depth opened) (siblings : AllItems true before) (said : AllItems false inner) :
      InItem depth ⟨inner, ⟨"li", attributes, before⟩ :: opened⟩

theorem AllItems.nil (isItem : Bool) : AllItems isItem [] := fun _ member => nomatch member

/-- An element that is closed. -/
theorem AllItems.closed {isItem : Bool} {name : String} (inner : AllItems isItem said)
    (attributes : List (String × String)) (kind : isItem = (name == "ul")) :
    (Tree.element name attributes said.reverse).ListsHoldItems :=
  .element (fun tree member => (inner tree (List.mem_reverse.mp member)).1.trans kind)
    fun tree member => (inner tree (List.mem_reverse.mp member)).2

theorem AllItems.cons {isItem : Bool} {tree : Tree} (same : tree.isItem = isItem) (holds : tree.ListsHoldItems)
    (others : AllItems isItem before) : AllItems isItem (tree :: before) :=
  List.forall_mem_cons.mpr ⟨⟨same, holds⟩, others⟩

theorem OpenLists.listDepth_eq (lists : OpenLists depth opened) : listDepth opened = depth := by
  induction lists with
  | outermost => rfl
  | deeper around _ _ ih => rw [listDepth_cons, listDepth_cons, ih]; rfl

theorem OpenLists.pos (lists : OpenLists depth opened) : 0 < depth := by
  cases lists <;> omega

/-- Directly around an item stands a list. -/
theorem OpenLists.head (lists : OpenLists depth opened) : ∀ outer ∈ opened.head?, outer.name = "ul" := by
  cases lists <;> simp

/-! ## Steps -/

/-- An item that only holds a list. -/
theorem InList.opensLevel (place : InList depth reading) : Reaches reading levelParts [] (InList (depth + 1)) := by
  obtain ⟨lists, items⟩ := place
  refine ⟨_, rfl, ?_, .intro (.deeper lists items (.nil _)) (.nil _)⟩
  -- It has no attributes and nothing of its own, so it does not count as an item.
  simp [Reading.items, itemsSoFar, ownItems, Tree.itemsOf]

/-- A list in the item of an entry. -/
theorem InItem.opensList (place : InItem depth reading) : Reaches reading [.start "ul" []] [] (InList (depth + 1)) := by
  obtain ⟨lists, siblings, said⟩ := place
  refine ⟨_, rfl, ?_, .intro (.deeper lists siblings said) (.nil _)⟩
  simp [Reading.items, itemsSoFar, ownItems, Tree.itemsOf]

/-- The item of an entry ends. -/
theorem InItem.closes (place : InItem depth reading) : Reaches reading [.stop "li"] [] (InList depth) := by
  obtain ⟨lists, siblings, said⟩ := place
  refine ⟨_, rfl, ?_, .intro lists (.cons rfl (said.closed _ rfl) siblings)⟩
  rw [List.append_nil]
  -- Around an item stands a list and no other item.
  refine itemsSoFar_close _ _ _ fun outer first item => ?_
  rw [lists.head outer first] at item
  exact absurd item (by decide)

/-- A list in an item ends. -/
theorem InList.closesList (place : InList (depth + 1) reading) (inner : 0 < depth) :
    Reaches reading [.stop "ul"] [] (InItem depth) := by
  obtain ⟨lists, items⟩ := place
  cases lists with
  | outermost => cases inner
  | deeper around siblings beside =>
    refine ⟨_, rfl, ?_, .intro around siblings (.cons rfl (items.closed _ rfl) beside)⟩
    rw [List.append_nil]
    exact itemsSoFar_close _ ⟨"ul", [], _⟩ _ fun _ _ _ => rfl

theorem InList.closesLevel (place : InList (depth + 1) reading) (inner : 0 < depth) :
    Reaches reading levelEnds [] (InList depth) :=
  (place.closesList inner).trans fun _ there => there.closes

/-- An entry. -/
theorem InList.writesEntry (place : InList depth reading) (entry : ContentsEntry) :
    Reaches reading (entryParts entry) [listItem depth entry] (InItem depth) := by
  obtain ⟨lists, items⟩ := place
  rename_i inner opened
  refine ⟨⟨[linkTree entry], ⟨"li", [("class", "toc-level-" ++ toString entry.level)], inner⟩ :: opened⟩, ?_, ?_, ?_⟩
  · unfold entryParts linkTree Part.ofText
    split <;> rfl
  · -- The item is new, and in its link there are no others.
    have deep : listDepth (⟨"li", [("class", "toc-level-" ++ toString entry.level)], inner⟩ :: opened) = depth := by
      rw [listDepth_cons, lists.listDepth_eq]
      rfl
    have inLink : (linkTree entry).items depth = [] := by
      unfold linkTree
      split <;> rfl
    simp only [Reading.items, itemsSoFar, deep, List.reverse_singleton, Tree.itemsOf, inLink]
    rfl
  · refine .intro lists items (.cons rfl ?_ (.nil _))
    unfold linkTree
    split
    · exact (AllItems.nil false).closed _ rfl
    · exact (AllItems.cons rfl .text (.nil false)).closed _ rfl

theorem InList.opensLevels (place : InList depth reading) (n : Nat) :
    Reaches reading (List.replicate n levelParts).flatten [] (InList (depth + n)) :=
  .repeated (fun k => InList (depth + k)) (fun _ _ _ there => there.opensLevel) place

theorem InList.closesLevels {n : Nat} (place : InList (depth + n) reading) (inner : 0 < depth) :
    Reaches reading (List.replicate n levelEnds).flatten [] (InList depth) := by
  have all : Reaches reading (List.replicate n levelEnds).flatten [] (InList (depth + (n - n))) := by
    -- With each turn there is one list less.
    refine .repeated (fun k => InList (depth + (n - k))) (fun k below next there => ?_) place
    have deeper : depth + (n - k) = depth + (n - (k + 1)) + 1 := by omega
    rw [deeper] at there
    exact there.closesLevel (by omega)
  rwa [Nat.sub_self] at all

/-! ## Runs -/

/-- Where the writer stands in front of the first entry, and behind an entry of a level. -/
def Standing (base : Nat) : Option Nat → Reading → Prop
  | none => InList 1
  | some current => fun reading => base ≤ current ∧ InItem (current - base + 1) reading

/-- Behind an entry the lists are closed down to a level that is not deeper. -/
theorem InItem.closesLevels (place : InItem (current - base + 1) reading) (low : base ≤ level) (deep : level ≤ current) :
    Reaches reading (.stop "li" :: (List.replicate (current - level) levelEnds).flatten) [] (InList (level - base + 1)) := by
  refine place.closes.trans fun next there => InList.closesLevels ?_ (Nat.succ_pos _)
  have levels : level - base + 1 + (current - level) = current - base + 1 := by omega
  rwa [levels]

/-- Wherever the writer stands, the tags in front of an entry lead to the list for its level. -/
theorem Standing.steps {last : Option Nat} (place : Standing base last reading) (low : base ≤ level) :
    Reaches reading (stepParts base last level) [] (InList (level - base + 1)) := by
  cases last with
  | none =>
    have down := InList.opensLevels place (level - base)
    rwa [Nat.add_comm] at down
  | some current =>
    obtain ⟨deep, place⟩ := place
    unfold stepParts
    simp only
    split
    case isTrue deeper =>
      have down := place.opensList.trans fun next there => there.opensLevels (level - (current + 1))
      have levels : current - base + 1 + 1 + (level - (current + 1)) = level - base + 1 := by omega
      rwa [levels] at down
    case isFalse notDeeper => exact place.closesLevels low (Nat.le_of_not_lt notDeeper)

/-- All entries are written, each of them in as many lists as its level says, and the lists are closed again. -/
theorem Standing.writesItems {last : Option Nat} (place : Standing base last reading)
    (low : ∀ entry ∈ entries, base ≤ entry.level) :
    Reaches reading (itemsParts base last entries)
      (entries.map fun entry => listItem (entry.level - base + 1) entry) (InList 1) := by
  -- Of the entries before, where the writer stands is all that matters for the others.
  induction entries generalizing reading last with
  | nil =>
    cases last with
    | none => exact .here place
    | some current =>
      have closes := place.2.closesLevels (Nat.le_refl base) place.1
      rwa [Nat.sub_self] at closes
  | cons entry rest ih =>
    have parts : itemsParts base last (entry :: rest) =
        stepParts base last entry.level ++ entryParts entry ++ itemsParts base (some entry.level) rest := by
      cases last <;> rfl
    obtain ⟨own, others⟩ := List.forall_mem_cons.mp low
    rw [parts]
    exact ((place.steps own).trans fun _ there => there.writesEntry entry).trans fun _ there => ih ⟨own, there⟩ others

/-! ## Levels in a byte -/

/-- A sum of levels, if a byte holds it. -/
def addLevels? (a b : Nat) : Option Nat := if a + b < 256 then some (a + b) else none

/-- How much deeper a level is than another one, if it is not above it. -/
def subLevels? (a b : Nat) : Option Nat := if b ≤ a then some (a - b) else none

theorem addLevels?_of_lt {a b : Nat} (fits : a + b < 256) : addLevels? a b = some (a + b) := if_pos fits

theorem subLevels?_of_le {a b : Nat} (deep : b ≤ a) : subLevels? a b = some (a - b) := if_pos deep

/-- What leads to an entry, with levels that have to stay in a byte. -/
def checkedStep? (base : Nat) : Option Nat → Nat → Option String
  | none, level => do return times (← subLevels? level base) "<li><ul>"
  | some current, level =>
    if current < level then do return "<ul>" ++ times (← subLevels? level (← addLevels? current 1)) "<li><ul>"
    else do return "</li>" ++ times (← subLevels? current level) "</ul></li>"

/-- The items of some entries, with levels that have to stay in a byte. -/
def checkedItems? (base : Nat) : Option Nat → List ContentsEntry → Option String
  | none, [] => some ""
  | some current, [] => do return "</li>" ++ times (← subLevels? current base) "</ul></li>"
  | last, entry :: rest => do
    return (← checkedStep? base last entry.level) ++ itemMarkup entry ++ (← checkedItems? base (some entry.level) rest)

/-- The list of some entries, with levels that have to stay in a byte. -/
def checkedMarkup? (entries : List ContentsEntry) : Option String :=
  match (entries.map ContentsEntry.level).min? with
  | none => some ""
  | some base => do
    return "<nav class=\"table-of-contents\"><h4>Table of Contents</h4><ul>" ++ (← checkedItems? base none entries) ++
      "</ul></nav>"

theorem checkedStep?_eq {last : Option Nat} (behind : ∀ current ∈ last, base ≤ current) (low : base ≤ level)
    (fits : level ≤ 255) : checkedStep? base last level = some (stepMarkup base last level) := by
  unfold checkedStep? stepMarkup
  cases last with
  | none =>
    simp only [subLevels?_of_le low]
    rfl
  | some current =>
    simp only
    split
    case isTrue deeper =>
      -- A deeper level comes behind it, so one more still fits.
      rw [addLevels?_of_lt (by omega)]
      simp only [Option.bind_eq_bind, Option.bind_some, subLevels?_of_le deeper]
      rfl
    case isFalse notDeeper =>
      rw [subLevels?_of_le (Nat.le_of_not_lt notDeeper)]
      rfl

theorem checkedItems?_eq {last : Option Nat} (behind : ∀ current ∈ last, base ≤ current)
    (low : ∀ entry ∈ entries, base ≤ entry.level) (fits : ∀ entry ∈ entries, entry.level ≤ 255) :
    checkedItems? base last entries = some (itemsMarkup base last entries) := by
  induction entries generalizing last with
  | nil =>
    cases last with
    | none => rfl
    | some current =>
      unfold checkedItems? itemsMarkup
      rw [subLevels?_of_le (behind current rfl)]
      rfl
  | cons entry rest ih =>
    obtain ⟨own, others⟩ := List.forall_mem_cons.mp low
    obtain ⟨ownFits, otherFits⟩ := List.forall_mem_cons.mp fits
    have step := checkedStep?_eq behind own ownFits
    have items : checkedItems? base (some entry.level) rest = some (itemsMarkup base (some entry.level) rest) :=
      ih (fun current same => Option.some.inj same ▸ own) others otherFits
    have parts : checkedItems? base last (entry :: rest) = do
        return (← checkedStep? base last entry.level) ++ itemMarkup entry ++ (← checkedItems? base (some entry.level) rest) := by
      cases last <;> rfl
    rw [parts, step, items]
    cases last <;> rfl

/-! ## The whole list -/

/-- The lowest of the levels. -/
theorem isLeast_of_min? (least : (entries.map ContentsEntry.level).min? = some base) :
    IsLeast {level | ∃ entry ∈ entries, entry.level = level} base := by
  obtain ⟨occurs, below⟩ := List.min?_eq_some_iff.mp least
  refine ⟨List.mem_map.mp occurs, ?_⟩
  rintro level ⟨entry, member, rfl⟩
  exact below _ (List.mem_map.mpr ⟨entry, member, rfl⟩)

/-- The list is read back as a title and the items of the entries. -/
theorem ofParts?_listParts (low : ∀ entry ∈ entries, base ≤ entry.level) :
    ∃ items : List Tree,
      Tree.ofParts? (headParts ++ itemsParts base none entries ++ [.stop "ul", .stop "nav"]) = some [navigation items] ∧
      (navigation items).ListsHoldItems ∧
      (navigation items).items 0 = entries.map fun entry => listItem (entry.level - base + 1) entry := by
  let start : Reading := ⟨[], [⟨"ul", [], [headline]⟩, ⟨"nav", [("class", "table-of-contents")], []⟩]⟩
  have opens : (Reading.mk [] []).readAll? headParts = some start := rfl
  have begins : Standing base none start := .intro .outermost (.nil _)
  obtain ⟨⟨inner, opened⟩, reads, adds, ⟨lists, within⟩⟩ := begins.writesItems low
  cases lists with
  | deeper around _ _ => exact absurd around.pos (Nat.lt_irrefl 0)
  | outermost =>
    refine ⟨inner.reverse, ?_, ?_, ?_⟩
    · unfold Tree.ofParts?
      rw [Reading.readAll?_append, Reading.readAll?_append, opens, Option.bind_some, reads]
      rfl
    · have list : (Tree.element "ul" [] inner.reverse).ListsHoldItems := within.closed _ rfl
      have title : headline.ListsHoldItems := (AllItems.cons rfl .text (.nil false)).closed _ rfl
      have both : AllItems false [.element "ul" [] inner.reverse, headline] := .cons rfl list (.cons rfl title (.nil false))
      exact both.closed _ rfl
    · have nothing : start.items = [] := rfl
      rw [nothing, List.nil_append] at adds
      rw [← adds]
      simp [Reading.items, navigation, headline, itemsSoFar, Tree.items, Tree.itemsOf, ownItems, listDepth]

/-- Without entries nothing is written. Otherwise the markup is a title and a list of items, in which each list is closed
before the item around it. Read back in their order, the items are links to the entries, and each of them stands in one list
more than its level is above the lowest one. No level leaves its byte on the way. -/
theorem contentsMarkup_nests_entries (entries : List ContentsEntry) :
    contentsMarkup [] = "" ∧
    ((∀ entry ∈ entries, entry.level ≤ 255) → checkedMarkup? entries = some (contentsMarkup entries)) ∧
    (entries ≠ [] → ∃ (base : Nat) (items : List Tree),
      IsLeast {level | ∃ entry ∈ entries, entry.level = level} base ∧
      (Part.ofMarkup? (contentsMarkup entries)).bind Tree.ofParts? = some [navigation items] ∧
      (navigation items).ListsHoldItems ∧
      (navigation items).items 0 = entries.map fun entry => listItem (entry.level - base + 1) entry) := by
  refine ⟨rfl, fun fits => ?_, fun present => ?_⟩
  · cases least : (entries.map ContentsEntry.level).min? with
    | none => simp [checkedMarkup?, contentsMarkup, least]
    | some base =>
      have low : ∀ entry ∈ entries, base ≤ entry.level := fun entry member => (isLeast_of_min? least).2 ⟨entry, member, rfl⟩
      have nowhere : ∀ current ∈ (none : Option Nat), base ≤ current := nofun
      simp [checkedMarkup?, contentsMarkup, least, checkedItems?_eq nowhere low fits]
  · obtain ⟨base, least⟩ : ∃ base, (entries.map ContentsEntry.level).min? = some base := by
      rw [← Option.ne_none_iff_exists']
      simpa using present
    have lowest := isLeast_of_min? least
    obtain ⟨items, reads, nested, holds⟩ := ofParts?_listParts fun entry member => lowest.2 ⟨entry, member, rfl⟩
    refine ⟨base, items, lowest, ?_, nested, holds⟩
    rw [(takes_listMarkup least).consistsOf_of_tag.read]
    exact reads

/-- An entry may stand deeper than a later one. -/
theorem contentsMarkup_of_deeper_start :
    let entries : List ContentsEntry := [⟨3, "Deep", "deep"⟩, ⟨1, "Top", "top"⟩]
    (∀ entry ∈ entries, entry.level ≤ 255) ∧ entries ≠ [] ∧
      checkedMarkup? entries = some (contentsMarkup entries) ∧
      ∃ items : List Tree, (Part.ofMarkup? (contentsMarkup entries)).bind Tree.ofParts? = some [navigation items] ∧
        (navigation items).ListsHoldItems ∧
        (navigation items).items 0 = [listItem 3 ⟨3, "Deep", "deep"⟩, listItem 1 ⟨1, "Top", "top"⟩] := by
  intro entries
  have fits : ∀ entry ∈ entries, entry.level ≤ 255 := by decide
  have present : entries ≠ [] := by decide
  obtain ⟨_, checked, written⟩ := contentsMarkup_nests_entries entries
  obtain ⟨base, items, lowest, reads, nested, holds⟩ := written present
  have above : ∀ entry ∈ entries, 1 ≤ entry.level := by decide
  obtain rfl : base = 1 := by
    refine lowest.unique ⟨⟨⟨1, "Top", "top"⟩, by decide, rfl⟩, ?_⟩
    rintro level ⟨entry, member, rfl⟩
    exact above entry member
  exact ⟨fits, present, checked fits, items, reads, nested, holds⟩

end Galley.Heading
