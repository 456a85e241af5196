import Galley.Proofs.Markdown.Spots
import Galley.Proofs.Session.Places
import Galley.Proofs.Session.Screen
import Galley.Proofs.Text.Decoding
import Mathlib

/-!
# A page as it is shown before any picture

* `distinctParts`, `awaitedPlaces` — the places that a screen keeps: each id counts where it is met first;
* `split_eq`, `awaitedDiagrams_ofMarkup` — what a screen holds in terms of them;
* `Placeholder.respelled` — a place as the screen writes it;
* `markup_ofMarkup_eq_iff` — a page is shown as it was made if its places are written in the same way.
-/

namespace Galley

open Galley.Diagram (NamedDiagram)
open Placeholder

/-! ## The places that count -/

/-- The parts of a page. A place without an id, or with one of an earlier place, is plain markup. -/
def distinctParts : List String → List PagePart → List PagePart
  | _, [] => []
  | seen, .char c :: rest => .char c :: distinctParts seen rest
  | seen, .place place :: rest =>
    let id := String.ofList place.id
    if place.id.isEmpty || seen.contains id then
      place.chars.map .char ++ distinctParts seen rest
    else .place place :: distinctParts (id :: seen) rest

/-- The places of a page that a screen waits for. -/
def awaitedPlaces (html : String) : List Placeholder :=
  (distinctParts [] (pageParts html.toList)).filterMap PagePart.place?

/-- The diagram that a place waits for. -/
def Placeholder.diagram (place : Placeholder) : NamedDiagram :=
  ⟨.ofList place.id, .ofList (Text.decodeChars place.body)⟩

/-- The picture of a place that waits. -/
def Placeholder.entry (place : Placeholder) : String × Picture :=
  (place.diagram.id, .awaited place.diagram.source)

/-- A place as the screen writes it. -/
def Placeholder.respelled (place : Placeholder) : Placeholder where
  id := place.id.flatMap Text.escapeAttributeChar
  body := (Text.decodeChars place.body).flatMap Text.escapeTextChar

/-- A part as the screen writes it. -/
def PagePart.shown : PagePart → List Char
  | .char c => [c]
  | .place held => held.respelled.chars

theorem flatMap_chars_map_char (cs : List Char) : (cs.map PagePart.char).flatMap PagePart.chars = cs := by
  induction cs with
  | nil => rfl
  | cons c cs ih => rw [List.map_cons, List.flatMap_cons, ih, PagePart.chars, List.singleton_append]

/-- No character is lost with the places that do not count. -/
theorem flatMap_chars_distinctParts (seen : List String) (parts : List PagePart) :
    (distinctParts seen parts).flatMap PagePart.chars = parts.flatMap PagePart.chars := by
  fun_induction distinctParts seen parts with
  | case1 => rfl
  | case2 seen c rest ih => rw [List.flatMap_cons, List.flatMap_cons, ih]
  | case3 seen place rest id met ih =>
    rw [List.flatMap_append, flatMap_chars_map_char, ih, List.flatMap_cons, PagePart.chars]
  | case4 seen place rest id met ih => rw [List.flatMap_cons, List.flatMap_cons, ih]

theorem distinctParts_sublist (seen : List String) (parts : List PagePart) :
    ((distinctParts seen parts).filterMap PagePart.place?).Sublist (parts.filterMap PagePart.place?) := by
  fun_induction distinctParts seen parts with
  | case1 => exact .slnil
  | case2 seen c rest ih => exact ih
  | case3 seen place rest id met ih =>
    rw [List.filterMap_append, filterMap_place?_map_char]
    exact ih.cons place
  | case4 seen place rest id met ih => exact ih.cons_cons place

/-- Places with different ids all count. -/
theorem distinctParts_eq_self {seen : List String} {parts : List PagePart}
    (some : ∀ place ∈ parts.filterMap PagePart.place?, place.id ≠ [])
    (unseen : ∀ place ∈ parts.filterMap PagePart.place?, place.diagram.id ∉ seen)
    (distinct : ((parts.filterMap PagePart.place?).map (·.diagram.id)).Nodup) :
    distinctParts seen parts = parts := by
  fun_induction distinctParts seen parts with
  | case1 => rfl
  | case2 seen c rest ih => rw [ih some unseen distinct]
  | case3 seen place rest id met ih =>
    rw [Bool.or_eq_true, List.isEmpty_iff, List.contains_eq_mem, decide_eq_true_eq] at met
    rcases met with none | seenBefore
    · exact absurd none (some place List.mem_cons_self)
    · exact absurd seenBefore (unseen place List.mem_cons_self)
  | case4 seen place rest id met ih =>
    change (place.diagram.id :: _).Nodup at distinct
    obtain ⟨fresh, distinct⟩ := List.nodup_cons.mp distinct
    rw [ih (fun other member => some other (List.mem_cons_of_mem _ member)) ?_ distinct]
    intro other member seenNow
    rcases List.mem_cons.mp seenNow with same | before
    · exact fresh (List.mem_map.mpr ⟨other, member, same⟩)
    · exact unseen other (List.mem_cons_of_mem _ member) before

/-! ## What a screen holds -/

/-- The pieces and the pictures of a page in parts. `markup` is the markup since the last place, last
character first. -/
def gather : List Char → List PagePart → List Segment × List (String × Picture)
  | markup, [] => (Screen.markupSegment markup, [])
  | markup, .char c :: rest => gather (c :: markup) rest
  | markup, .place place :: rest =>
    let (segments, pictures) := gather [] rest
    (Screen.markupSegment markup ++ .diagram place.diagram.id :: segments, place.entry :: pictures)

theorem gather_map_char (markup cs : List Char) (rest : List PagePart) :
    gather markup (cs.map .char ++ rest) = gather (cs.reverse ++ markup) rest := by
  induction cs generalizing markup with
  | nil => rfl
  | cons c cs ih =>
    rw [List.map_cons, List.cons_append, gather, ih, List.reverse_cons, List.append_assoc]
    rfl

theorem take_of_append {front after : List Char} {c : Char} {rest : List Char}
    (same : c :: rest = front ++ after) : (c :: rest).take (rest.length + 1 - after.length) = front := by
  have lengths := congrArg List.length same
  rw [List.length_cons, List.length_append] at lengths
  rw [same, lengths, Nat.add_sub_cancel, List.take_left]

/-- A page is taken apart at the places that count. -/
theorem Screen.split_eq (fuel : Nat) (seen : List String) (markup cs : List Char)
    (enough : cs.length < fuel) :
    Screen.split fuel seen markup cs = gather markup (distinctParts seen (pageParts cs)) := by
  fun_induction Screen.split fuel seen markup cs with
  | case1 => exact absurd enough (Nat.not_lt_zero _)
  | case2 => rw [pageParts_nil, distinctParts, gather]
  | case3 fuel seen markup c rest none ih =>
    rw [ih (Nat.lt_of_succ_lt_succ enough), pageParts_cons_of_none none, distinctParts, gather]
  | case4 fuel seen markup c rest place after read id met whole ih =>
    have shorter := length_after_lt read
    obtain ⟨readable, same⟩ := ofStart?_eq_some_iff.mp read
    rw [ih (by omega), same, pageParts_place readable, distinctParts, if_pos met, gather_map_char,
      show whole = _ from take_of_append same]
  | case5 fuel seen markup c rest place after read id met segments pictures split ih =>
    have shorter := length_after_lt read
    obtain ⟨readable, same⟩ := ofStart?_eq_some_iff.mp read
    rw [ih (by omega)] at split
    rw [same, pageParts_place readable, distinctParts, if_neg met, gather]
    rw [split]
    rfl

theorem Screen.ofMarkup_eq (generation : Nat) (html : String) :
    Screen.ofMarkup generation html =
      let (segments, pictures) := gather [] (distinctParts [] (pageParts html.toList))
      ⟨generation, segments, pictures⟩ := by
  simp only [Screen.ofMarkup, Screen.split_eq _ _ _ _ (Nat.lt_succ_self _)]

theorem segments_ofMarkup (generation : Nat) (html : String) :
    (Screen.ofMarkup generation html).segments = (gather [] (distinctParts [] (pageParts html.toList))).1 := by
  rw [Screen.ofMarkup_eq]

theorem gather_pictures (markup : List Char) (parts : List PagePart) :
    (gather markup parts).2 = (parts.filterMap PagePart.place?).map Placeholder.entry := by
  fun_induction gather markup parts with
  | case1 => rfl
  | case2 markup c rest ih => exact ih
  | case3 markup place rest segments pictures split ih =>
    rw [split] at ih
    rw [show pictures = _ from ih]
    rfl

theorem pictures_ofMarkup (generation : Nat) (html : String) :
    (Screen.ofMarkup generation html).pictures = (awaitedPlaces html).map Placeholder.entry := by
  rw [Screen.ofMarkup_eq]
  exact gather_pictures _ _

/-- The ids of the places that count are different. -/
theorem nodup_awaitedPlaces (html : String) :
    ((awaitedPlaces html).map (·.diagram.id)).Nodup := by
  have distinct := (Screen.ofMarkup_matching 0 html).distinct
  rwa [pictures_ofMarkup, List.map_map] at distinct

theorem lookup_map_entry {places : List Placeholder} (distinct : (places.map (·.diagram.id)).Nodup)
    {place : Placeholder} (member : place ∈ places) :
    (places.map Placeholder.entry).lookup place.diagram.id = some (.awaited place.diagram.source) := by
  induction places with
  | nil => cases member
  | cons first rest ih =>
    rw [List.map_cons, List.nodup_cons] at distinct
    rw [List.map_cons, Placeholder.entry, List.lookup_cons]
    rcases List.mem_cons.mp member with rfl | later
    · rw [beq_self_eq_true]
    · have other : place.diagram.id ≠ first.diagram.id := fun same =>
        distinct.1 (List.mem_map.mpr ⟨place, later, same⟩)
      rw [beq_false_of_ne other]
      exact ih distinct.2 later

theorem picture?_ofMarkup (generation : Nat) {html : String} {place : Placeholder}
    (member : place ∈ awaitedPlaces html) :
    (Screen.ofMarkup generation html).picture? place.diagram.id = some (.awaited place.diagram.source) := by
  rw [Screen.picture?, pictures_ofMarkup]
  exact lookup_map_entry (nodup_awaitedPlaces html) member

/-- The diagrams that wait are those of the places that count, in the order of the page. -/
theorem awaitedDiagrams_ofMarkup (generation : Nat) (html : String) :
    (Screen.ofMarkup generation html).awaitedDiagrams = (awaitedPlaces html).map Placeholder.diagram := by
  rw [Screen.awaitedDiagrams, Screen.shownIds_eq, (Screen.ofMarkup_matching generation html).ids,
    pictures_ofMarkup, List.map_map, List.filterMap_map, ← List.filterMap_eq_map]
  refine List.filterMap_congr fun place member => ?_
  rw [Function.comp_apply, Function.comp_apply]
  simp only [Placeholder.entry, picture?_ofMarkup generation member, Function.comp_apply]

/-! ## The page that is shown -/

theorem pictureMarkup_awaited (place : Placeholder) :
    (Screen.pictureMarkup place.diagram.id (.awaited place.diagram.source)).toList =
      place.respelled.chars := by
  have id : (Text.escapeAttribute place.diagram.id).toList = place.respelled.id := by
    rw [Text.escapeAttribute, String.toList_ofList, Placeholder.diagram, String.toList_ofList,
      Placeholder.respelled]
  have body : (Text.escapeText place.diagram.source).toList = place.respelled.body := by
    rw [Text.escapeText, String.toList_ofList, Placeholder.diagram, String.toList_ofList,
      Placeholder.respelled]
  unfold Screen.pictureMarkup Placeholder.chars
  simp only [String.toList_append, id, body, List.append_assoc]
  rfl

theorem flatMap_markupSegment (screen : Screen) (reversed : List Char) :
    ((Screen.markupSegment reversed).map screen.segmentMarkup).flatMap String.toList = reversed.reverse := by
  unfold Screen.markupSegment
  split
  next none =>
    rw [List.isEmpty_iff.mp none]
    rfl
  next =>
    rw [List.map_cons, List.map_nil, List.flatMap_singleton, Screen.segmentMarkup, String.toList_ofList]

/-- A screen that knows the pictures of all places writes every part in its own way. -/
theorem flatMap_gather {screen : Screen} (markup : List Char) (parts : List PagePart)
    (known : ∀ place ∈ parts.filterMap PagePart.place?,
      screen.picture? place.diagram.id = some (.awaited place.diagram.source)) :
    ((gather markup parts).1.map screen.segmentMarkup).flatMap String.toList =
      markup.reverse ++ parts.flatMap PagePart.shown := by
  fun_induction gather markup parts with
  | case1 markup => rw [flatMap_markupSegment, List.flatMap_nil, List.append_nil]
  | case2 markup c rest ih =>
    rw [ih known, List.reverse_cons, List.append_assoc, List.flatMap_cons]
    rfl
  | case3 markup place rest segments pictures split ih =>
    rw [split] at ih
    rw [List.filterMap_cons, PagePart.place?, List.forall_mem_cons] at known
    rw [List.map_append, List.flatMap_append, flatMap_markupSegment, List.map_cons, List.flatMap_cons,
      ih known.2, Screen.segmentMarkup, known.1, Option.elim_some, pictureMarkup_awaited,
      List.flatMap_cons]
    rfl

/-- What is shown is the page with its places as the screen writes them. -/
theorem toList_markup_ofMarkup (generation : Nat) (html : String) :
    (Screen.ofMarkup generation html).markup.toList =
      (distinctParts [] (pageParts html.toList)).flatMap PagePart.shown := by
  rw [Screen.markup, String.toList_join, segments_ofMarkup,
    flatMap_gather _ _ fun place member => picture?_ofMarkup generation member]
  rfl

theorem isReadable_respelled (place : Placeholder) : place.respelled.IsReadable := by
  have id := not_mem_escapeAttribute (.ofList place.id)
  have body := not_mem_escapeText (.ofList (Text.decodeChars place.body))
  rw [Text.escapeAttribute, String.toList_ofList, String.toList_ofList] at id
  rw [Text.escapeText, String.toList_ofList, String.toList_ofList] at body
  exact ⟨id, body⟩

/-- Parts are written alike in both ways if each place is. -/
theorem flatMap_shown_eq_iff {parts : List PagePart}
    (readable : ∀ place ∈ parts.filterMap PagePart.place?, place.IsReadable) :
    parts.flatMap PagePart.shown = parts.flatMap PagePart.chars ↔
      ∀ place ∈ parts.filterMap PagePart.place?, place.respelled = place := by
  induction parts with
  | nil => simp
  | cons part rest ih =>
    cases part with
    | char c =>
      rw [List.flatMap_cons, List.flatMap_cons, PagePart.shown, PagePart.chars, List.append_right_inj]
      exact ih readable
    | place place =>
      rw [List.filterMap_cons, PagePart.place?, List.forall_mem_cons] at readable ⊢
      rw [List.flatMap_cons, List.flatMap_cons, PagePart.shown, PagePart.chars, ← ih readable.2]
      refine ⟨fun same => ?_, fun both => by rw [both.1, both.2]⟩
      exact chars_append_inj (isReadable_respelled place) readable.1 same

/-- A page is shown as it was made if and only if the screen writes its places in the same way. -/
theorem markup_ofMarkup_eq_iff (generation : Nat) (html : String) :
    (Screen.ofMarkup generation html).markup = html ↔
      ∀ place ∈ awaitedPlaces html, place.respelled = place := by
  obtain ⟨whole, readable⟩ := pageParts_spec html.toList
  have counting : ∀ place ∈ awaitedPlaces html, place.IsReadable := fun place member =>
    readable place ((distinctParts_sublist [] _).subset member)
  rw [← String.toList_inj, toList_markup_ofMarkup]
  conv_lhs => rhs; rw [← whole, ← flatMap_chars_distinctParts []]
  exact flatMap_shown_eq_iff counting

end Galley
