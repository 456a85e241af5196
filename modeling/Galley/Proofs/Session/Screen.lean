import Galley.Screen
import Mathlib

/-!
# What a screen keeps

The places of a page have different ids, so a picture is put into one place and no other.

* `Segment.id?` — the id of a place, and `shownIds_eq`;
* `split_spec` — the places and the pictures of a page belong together;
* `settle_stale`, `settle_awaited` — the two ways in which an outcome is received;
* `picture?_setPicture` — putting one picture leaves the others.
-/

namespace Galley

open Galley.Diagram (PictureError NamedDiagram)

/-- The id of the diagram whose place a piece of the page is. -/
def Segment.id? : Segment → Option String
  | .diagram id => some id
  | .markup _ => none

namespace Screen

variable {screen : Screen}

/-! ## The places of a page -/

theorem shownIds_eq : screen.shownIds = screen.segments.filterMap Segment.id? := by
  unfold shownIds
  congr

theorem filterMap_markupSegment (reversed : List Char) :
    (markupSegment reversed).filterMap Segment.id? = [] := by
  unfold markupSegment
  split <;> rfl

/-- What is known of the places and the pictures that a page is taken apart into. -/
structure Matching (seen : List String) (segments : List Segment)
    (pictures : List (String × Picture)) : Prop where
  /-- There is one picture for each place, in the order of the page. -/
  ids : segments.filterMap Segment.id? = pictures.map Prod.fst
  /-- No id is met twice. -/
  distinct : (pictures.map Prod.fst).Nodup
  /-- No id was met before. -/
  unseen : ∀ id ∈ pictures.map Prod.fst, id ∉ seen
  /-- Every picture is still awaited. -/
  awaited : ∀ entry ∈ pictures, entry.2.isAwaited = true

theorem Matching.ofMarkup (seen : List String) (reversed : List Char) :
    Matching seen (markupSegment reversed) [] where
  ids := filterMap_markupSegment reversed
  distinct := List.nodup_nil
  unseen _ member := absurd member List.not_mem_nil
  awaited _ member := absurd member List.not_mem_nil

/-- A place with a new id goes in front of the places that follow it. -/
theorem Matching.cons {seen : List String} {id : String} {segments : List Segment}
    {pictures : List (String × Picture)} (rest : Matching (id :: seen) segments pictures)
    (fresh : id ∉ seen) (reversed : List Char) (source : String) :
    Matching seen (markupSegment reversed ++ .diagram id :: segments)
      ((id, .awaited source) :: pictures) where
  ids := by
    rw [List.filterMap_append, filterMap_markupSegment, List.nil_append, List.filterMap_cons]
    simp only [Segment.id?, rest.ids, List.map_cons]
  distinct := by
    refine List.nodup_cons.mpr ⟨fun member => ?_, rest.distinct⟩
    exact rest.unseen id member List.mem_cons_self
  unseen other member := by
    rcases List.mem_cons.mp member with rfl | later
    · exact fresh
    · exact fun before => rest.unseen other later (List.mem_cons_of_mem _ before)
  awaited entry member := by
    rcases List.mem_cons.mp member with rfl | later
    · rfl
    · exact rest.awaited entry later

theorem split_spec (fuel : Nat) (seen : List String) (markup cs : List Char) :
    Matching seen (split fuel seen markup cs).1 (split fuel seen markup cs).2 := by
  fun_induction split fuel seen markup cs with
  | case1 => exact .ofMarkup _ _
  | case2 => exact .ofMarkup _ _
  | case3 _ _ _ _ _ _ ih => exact ih
  | case4 _ _ _ _ _ _ _ _ _ _ _ ih => exact ih
  | case5 fuel seen markup c rest placeholder after started id isFresh segments pictures split ih =>
    rw [split] at ih
    simp only [Bool.or_eq_true, List.contains_eq_mem, decide_eq_true_eq, not_or] at isFresh
    exact ih.cons isFresh.2 _ _

theorem ofMarkup_matching (generation : Nat) (html : String) :
    Matching [] (ofMarkup generation html).segments (ofMarkup generation html).pictures :=
  split_spec _ _ _ _

theorem generation_ofMarkup (generation : Nat) (html : String) :
    (ofMarkup generation html).generation = generation := rfl

/-! ## Diagrams that wait -/

theorem mem_awaitedDiagrams {node : NamedDiagram} (member : node ∈ screen.awaitedDiagrams) :
    screen.picture? node.id = some (.awaited node.source) := by
  obtain ⟨id, -, found⟩ := List.mem_filterMap.mp member
  split at found
  next source shown =>
    rw [← Option.some.inj found]
    exact shown
  next => simp at found

theorem awaitedDiagrams_sublist :
    (screen.awaitedDiagrams.map NamedDiagram.id).Sublist screen.shownIds := by
  unfold awaitedDiagrams
  induction screen.shownIds with
  | nil => exact .slnil
  | cons id ids ih =>
    rw [List.filterMap_cons]
    split
    next => exact ih.cons _
    next node found =>
      have same : node.id = id := by
        split at found
        next => rw [← Option.some.inj found]
        next => simp at found
      rw [List.map_cons, same]
      exact ih.cons_cons _

theorem nodup_awaitedDiagrams_ofMarkup (generation : Nat) (html : String) :
    ((ofMarkup generation html).awaitedDiagrams.map NamedDiagram.id).Nodup := by
  refine awaitedDiagrams_sublist.nodup ?_
  rw [shownIds_eq, (ofMarkup_matching generation html).ids]
  exact (ofMarkup_matching generation html).distinct

/-! ## Outcomes -/

theorem lookup_setPicture (pictures : List (String × Picture)) (id key : String) (picture : Picture) :
    (setPicture pictures id picture).lookup key =
      if key = id then (pictures.lookup key).map fun _ => picture else pictures.lookup key := by
  induction pictures with
  | nil => simp [setPicture]
  | cons entry rest ih =>
    obtain ⟨first, old⟩ := entry
    have keyKept : setPicture ((first, old) :: rest) id picture =
        (first, if first = id then picture else old) :: setPicture rest id picture := by
      by_cases target : first = id <;> simp [setPicture, target]
    rw [keyKept, List.lookup_cons, List.lookup_cons, ih]
    by_cases here : key = first
    · subst here
      by_cases target : key = id <;> simp [target]
    · simp only [beq_false_of_ne here]

/-- The outcome of another pass changes nothing. -/
theorem settle_stale {generation : Nat} (other : generation ≠ screen.generation) (id : String)
    (outcome : Except PictureError String) :
    screen.settle generation id outcome = (screen, .stale) := by
  unfold settle
  rw [if_pos (bne_iff_ne.mpr other)]

/-- The outcome for a diagram that waits is put in its place. -/
theorem settle_awaited {generation : Nat} {id source : String} (own : generation = screen.generation)
    (waits : screen.picture? id = some (.awaited source)) (outcome : Except PictureError String) :
    screen.settle generation id outcome =
      ({ screen with pictures := setPicture screen.pictures id (.ofOutcome outcome) }, .applied) := by
  unfold settle
  rw [if_neg (by simp [own]), waits]

end Screen
end Galley
