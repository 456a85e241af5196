import Galley.Proofs.Conversion.Footnotes

/-!
# What is gathered from a draft

Places of diagrams and ids of tags stand in the events that a draft has written: in its body, and in footnotes that are put
at the end later. What one event adds, a footnote that ends and the section at the end is the same for both.

* `bodyOf`, `asideOf` — what is found in the body, and in footnotes;
* `gathered_mapEvents` — a change of the events that are being written;
* `gathered_endFootnote` — a footnote that ends keeps what is in it, or is left out;
* `gathered_footnoteSection` — the section at the end has each footnote at most once.
-/

namespace Galley.Draft

open Galley.Markdown (Event)

variable {α : Type} {f : Event → List α} {state : Draft}

/-- What is found in the body of what a draft has written. -/
def bodyOf (f : Event → List α) (state : Draft) : List α := state.out.reverse.flatMap f

/-- What is found in the footnote that a draft reads, and in those that it has read. -/
def asideOf (f : Event → List α) (state : Draft) : List α :=
  (state.footnote.elim [] fun note => note.2.reverse.flatMap f) ++
    state.definitions.flatMap fun definition => definition.2.flatMap f

theorem SameEvents.gathered {state' : Draft} (same : SameEvents state state') :
    bodyOf f state' = bodyOf f state ∧ asideOf f state' = asideOf f state := by
  unfold bodyOf asideOf
  rw [same.out, same.footnote, same.definitions]
  exact ⟨rfl, rfl⟩

/-- What is written goes to the footnote that is open, or else to the body. -/
theorem gathered_mapEvents {change : List Event → List Event} {new : List α} (state : Draft)
    (adds : ∀ events, (change events).reverse.flatMap f = events.reverse.flatMap f ++ new) :
    bodyOf f (state.mapEvents change) = bodyOf f state ++ (if state.footnote.isSome then [] else new) ∧
    (asideOf f (state.mapEvents change)).Perm (asideOf f state ++ (if state.footnote.isSome then new else [])) := by
  unfold bodyOf asideOf Draft.mapEvents
  split
  next key events reading =>
    simp only [reading, Option.isSome_some, if_true, Option.elim_some, List.append_nil, adds, true_and]
    rw [List.append_assoc, List.append_assoc]
    exact List.perm_append_comm.append_left _
  next reading => simp [reading, adds]

/-- All together there is nothing more than what is added. -/
theorem gathered_mapEvents_subperm {change : List Event → List Event} {new : List α} (state : Draft)
    (adds : ∀ events, ((change events).reverse.flatMap f).Subperm (events.reverse.flatMap f ++ new)) :
    (bodyOf f (state.mapEvents change) ++ asideOf f (state.mapEvents change)).Subperm
      (bodyOf f state ++ asideOf f state ++ new) := by
  unfold bodyOf asideOf Draft.mapEvents
  split
  next key events reading =>
    simp only [reading, Option.elim_some]
    refine ((List.Subperm.refl _).append ((adds events).append (.refl _))).trans (List.Perm.subperm ?_)
    rw [List.append_assoc, List.append_assoc, List.append_assoc]
    exact (List.perm_append_comm.append_left _).append_left _
  next reading =>
    simp only [reading, Option.elim_none, List.nil_append]
    refine ((adds state.out).append (.refl _)).trans (List.Perm.subperm ?_)
    rw [List.append_assoc, List.append_assoc]
    exact List.perm_append_comm.append_left _

theorem flatMap_push (event : Event) (events : List Event) :
    (event :: events).reverse.flatMap f = events.reverse.flatMap f ++ f event := by
  rw [List.reverse_cons, List.flatMap_append, List.flatMap_singleton]

theorem flatMap_changeLatest {change? : Event → Option Event}
    (same : ∀ event changed, change? event = some changed → f changed = f event) (events : List Event) :
    (changeLatest change? events).reverse.flatMap f = events.reverse.flatMap f ++ [] := by
  rw [List.append_nil]
  induction events with
  | nil => rfl
  | cons event rest ih =>
    unfold changeLatest
    split
    next changed made => rw [flatMap_push, flatMap_push, same event changed made]
    next => rw [flatMap_push, flatMap_push, ih]

/-- The end of a footnote keeps what is in it aside, or leaves it out. -/
theorem gathered_endFootnote (state : Draft) :
    bodyOf f state.endFootnote = bodyOf f state ∧ (asideOf f state.endFootnote).Subperm (asideOf f state) := by
  unfold endFootnote
  split
  next => exact ⟨rfl, .refl _⟩
  next key events reading =>
    simp only
    split
    · -- a footnote of this key was read before, so this one is dropped
      refine ⟨rfl, ?_⟩
      simp only [asideOf, reading, Option.elim_none, List.nil_append]
      exact (List.sublist_append_right _ _).subperm
    · refine ⟨rfl, ?_⟩
      simp only [asideOf, reading, Option.elim_none, Option.elim_some, List.nil_append, List.flatMap_append,
        List.flatMap_singleton]
      exact List.perm_append_comm.subperm

/-! ## Footnotes at the end -/

/-- What is found in what is written around footnotes: only the starts of items count. -/
structure FindsItems (f : Event → List α) (item : Nat → List α) : Prop where
  /-- The start of an item. -/
  itemStart : ∀ number : Nat, f (.html ("<li id=\"fn-" ++ toString number ++ "\">\n")) = item number
  /-- The end of an item. -/
  itemEnd : f (.html "</li>\n") = []
  /-- The link back. -/
  back : ∀ number, f (backReference number) = []
  /-- The paragraph that it is put into. -/
  paragraph : f (.stop .paragraph) = []
  /-- The start of the section. -/
  sectionStart : f (.html "<section class=\"footnotes\">\n<ol>\n") = []
  /-- The end of the section. -/
  sectionEnd : f (.html "</ol>\n</section>\n") = []

variable {item : Nat → List α}

theorem gathered_footnoteItem (finds : FindsItems f item) (number : Nat) (events : List Event) :
    (footnoteItem number events).flatMap f = item number ++ events.flatMap f := by
  have made := itemOf_footnoteItem number events
  generalize footnoteItem number events = written at made
  cases made with
  | inParagraph front back' last =>
    rw [List.flatMap_cons, finds.itemStart]
    simp [finds.itemEnd, finds.back, finds.paragraph]
  | atEnd none =>
    rw [List.flatMap_cons, finds.itemStart]
    simp [finds.itemEnd, finds.back]

theorem gathered_footnoteItems (finds : FindsItems f item) (definitions : List Note) (number : Nat) (keys : List String) :
    ((footnoteItems definitions number keys).flatMap f).Perm ((List.range' number keys.length).flatMap item ++
      keys.flatMap fun key => ((definitions.lookup key).getD []).flatMap f) := by
  induction keys generalizing number with
  | nil => exact .refl _
  | cons key rest ih =>
    rw [footnoteItems, List.flatMap_append, gathered_footnoteItem finds, List.length_cons, List.range'_succ,
      List.flatMap_cons, List.flatMap_cons, List.append_assoc, List.append_assoc]
    refine List.Perm.append_left _ (((ih (number + 1)).append_left _).trans ?_)
    rw [← List.append_assoc, ← List.append_assoc]
    exact List.perm_append_comm.append_right _

/-- The section at the end has the starts of its items, and what is in footnotes that were read, each at most once. -/
theorem gathered_footnoteSection [DecidableEq α] (finds : FindsItems f item) (distinct : (state.references.map Prod.fst).Nodup) :
    (state.footnoteSection.flatMap f).Subperm ((List.range' 1 state.references.length).flatMap item ++
      state.definitions.flatMap fun definition => definition.2.flatMap f) := by
  unfold footnoteSection
  split
  · exact List.nil_subperm
  · rw [List.flatMap_cons, finds.sectionStart, List.nil_append, List.flatMap_append, List.flatMap_singleton, finds.sectionEnd,
      List.append_nil]
    have items := gathered_footnoteItems finds state.definitions 1 (state.references.map Prod.fst)
    rw [List.length_map] at items
    refine items.subperm.trans (List.Subperm.append (.refl _) ?_)
    -- a footnote is looked up by its key, so what is in it counts once for each of the different keys
    refine List.subperm_ext_iff.mpr fun found _ => ?_
    rw [List.count_flatMap, List.count_flatMap]
    exact sum_lookup_le (fun events => (events.flatMap f).count found) rfl state.definitions distinct

/-- With the footnotes at the end there is what was in the body and in footnotes, and the starts of the items. -/
theorem gathered_finish [DecidableEq α] (finds : FindsItems f item) (distinct : (state.references.map Prod.fst).Nodup) :
    ∃ notes, state.finish.flatMap f = bodyOf f state ++ notes ∧
      notes.Subperm ((List.range' 1 state.references.length).flatMap item ++ asideOf f state) := by
  obtain ⟨body, aside⟩ := gathered_endFootnote (f := f) state
  have references := (frames_endFootnote state).references
  rw [← references] at distinct ⊢
  refine ⟨state.endFootnote.footnoteSection.flatMap f, ?_, ?_⟩
  · unfold finish
    rw [List.flatMap_append, ← body]
    rfl
  · have read : (state.endFootnote.definitions.flatMap fun definition => definition.2.flatMap f).Subperm
        (asideOf f state.endFootnote) := (List.sublist_append_right _ _).subperm
    exact (gathered_footnoteSection finds distinct).trans ((List.Subperm.refl _).append (read.trans aside))

end Galley.Draft
