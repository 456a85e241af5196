import Galley.Page
import Galley.Proofs.Conversion.Layout

/-!
# Footnotes at the end of a document

The footnotes that are referred to stand at the end of a document, each as an item of one section, in the order of
their first references. What an item holds was written while the definition was read, together with one link back.

* `ItemOf` — the item of a footnote;
* `ItemsFrom`, `itemsFrom_footnoteItems` — the items of some footnotes;
* `footnotes_follow_first_references` — what a document is made of;
* `Balanced`, `diverted_footnotes_stay_whole` — its tags are closed where they were opened;
* `inner_footnote_breaks_outer` — but not when a footnote is defined inside another one.
-/

namespace Galley

open Galley.Markdown (Event Tag tagged)

variable {events front back item : List Event} {number : Nat} {notes : List Note}

/-! ## Items -/

/-- The item of a footnote with a number: its events, with one link back in front of the end of their last
    paragraph, or behind all of them if they have none. -/
inductive ItemOf (number : Nat) : (events item : List Event) → Prop where
  | inParagraph (front back : List Event) (last : Event.stop .paragraph ∉ back) :
      ItemOf number (front ++ .stop .paragraph :: back)
        (.html ("<li id=\"fn-" ++ toString number ++ "\">\n") ::
          ((front ++ Draft.backReference number :: .stop .paragraph :: back) ++ [.html "</li>\n"]))
  | atEnd (events : List Event) (none : Event.stop .paragraph ∉ events) :
      ItemOf number events
        (.html ("<li id=\"fn-" ++ toString number ++ "\">\n") ::
          ((events ++ [Draft.backReference number]) ++ [.html "</li>\n"]))

/-- The items of footnotes in their order, from a number on. -/
inductive ItemsFrom (notes : List Note) : Nat → (keys : List String) → (items : List Event) → Prop where
  | nil {number : Nat} : ItemsFrom notes number [] []
  | cons {number : Nat} {key : String} {rest : List String} {events item items : List Event}
      (defined : notes.lookup key = some events) (first : ItemOf number events item)
      (more : ItemsFrom notes (number + 1) rest items) : ItemsFrom notes number (key :: rest) (item ++ items)

theorem insertBack?_eq_none {event : Event} (missing : Draft.insertBack? event events = none) :
    Event.stop .paragraph ∉ events := by
  fun_induction Draft.insertBack? event events with
  | case1 => exact List.not_mem_nil
  | case2 rest => cases missing
  | case3 first rest other ih =>
    rw [List.mem_cons, not_or]
    exact ⟨fun same => other same.symm, ih (Option.map_eq_none_iff.mp missing)⟩

theorem insertBack?_eq_some {event : Event} {found : List Event}
    (inserted : Draft.insertBack? event events = some found) :
    ∃ later earlier, Event.stop .paragraph ∉ later ∧ events = later ++ .stop .paragraph :: earlier ∧
      found = later ++ .stop .paragraph :: event :: earlier := by
  fun_induction Draft.insertBack? event events generalizing found with
  | case1 => cases inserted
  | case2 rest => exact ⟨[], rest, List.not_mem_nil, rfl, (Option.some.inj inserted).symm⟩
  | case3 first rest other ih =>
    obtain ⟨found', inserted', rfl⟩ := Option.map_eq_some_iff.mp inserted
    obtain ⟨later, earlier, last, rfl, rfl⟩ := ih inserted'
    refine ⟨first :: later, earlier, ?_, rfl, rfl⟩
    rw [List.mem_cons, not_or]
    exact ⟨fun same => other same.symm, last⟩

theorem itemOf_footnoteItem (number : Nat) (events : List Event) :
    ItemOf number events (Draft.footnoteItem number events) := by
  unfold Draft.footnoteItem
  simp only
  cases inserted : Draft.insertBack? (Draft.backReference number) events.reverse with
  | none =>
    have none := insertBack?_eq_none inserted
    rw [List.mem_reverse] at none
    simpa using @ItemOf.atEnd number events none
  | some found =>
    obtain ⟨later, earlier, last, same, rfl⟩ := insertBack?_eq_some inserted
    have whole : events = earlier.reverse ++ .stop .paragraph :: later.reverse := by
      rw [← List.reverse_reverse events, same]
      simp
    rw [← List.mem_reverse] at last
    rw [whole]
    simpa using @ItemOf.inParagraph number earlier.reverse later.reverse last

theorem lookup_of_mem_keys {key : String} (member : key ∈ notes.map Prod.fst) :
    ∃ events, notes.lookup key = some events := by
  cases found : notes.lookup key with
  | some events => exact ⟨events, rfl⟩
  | none =>
    obtain ⟨note, listed, rfl⟩ := List.mem_map.mp member
    have different := List.lookup_eq_none_iff.mp found note listed
    simp at different

theorem itemsFrom_footnoteItems {definitions : List Note} {keys : List String}
    (same : ∀ key, definitions.lookup key = notes.lookup key) (defined : ∀ key ∈ keys, key ∈ notes.map Prod.fst)
    (number : Nat) : ItemsFrom notes number keys (Draft.footnoteItems definitions number keys) := by
  induction keys generalizing number with
  | nil => exact .nil
  | cons key rest ih =>
    obtain ⟨first, others⟩ := List.forall_mem_cons.mp defined
    obtain ⟨events, found⟩ := lookup_of_mem_keys first
    unfold Draft.footnoteItems
    rw [same, found]
    exact .cons found (itemOf_footnoteItem number events) (ih others (number + 1))

/-! ## Documents -/

/-- A document with the section of its footnotes behind its body, if any footnote is referred to. -/
def withSection (body : List Event) (order : List String) (items : List Event) : List Event :=
  body ++ if order = [] then [] else
    .html "<section class=\"footnotes\">\n<ol>\n" :: (items ++ [.html "</ol>\n</section>\n"])

variable (extraction : Source.Extraction) (registry : Code.Registry) (ids : Diagram.Naming)

/-- The tree of well-nested events tells what a document is made of. -/
theorem finish_of_wellNested (nested : WellNested events) (apart : notesApart false events = true) :
    ∃ body notes items,
      LaidOut ⟨extraction, registry, definedFootnotes events⟩
        (referredKeys (definedFootnotes events) events).eraseDups 0 [] events body notes ∧
      ItemsFrom notes 1 (referredKeys (definedFootnotes events) events).eraseDups items ∧
      (draftOfEvents extraction registry ids events).finish =
        withSection body (referredKeys (definedFootnotes events) events).eraseDups items := by
  obtain ⟨body, notes, laidOut, ran⟩ := @WellNested.follows ⟨extraction, registry, definedFootnotes events⟩ events
    nested _ (.start ids) [] apart rfl rfl (List.prefix_refl _)
  change Draft.Ran _ _ _ (draftOfEvents extraction registry ids events) _ _ _ at ran
  generalize draftOfEvents extraction registry ids events = final at ran
  have closed : final.footnote = none := Option.map_eq_none_iff.mp ran.key
  have written : final.out = body.reverse := by
    obtain ⟨before, relabelled, same⟩ := ran.current
    rw [List.forall₂_nil_left_iff.mp relabelled, List.append_nil, Draft.current, closed] at same
    exact same
  have references : final.references.map Prod.fst =
      (referredKeys (definedFootnotes events) events).eraseDups := by
    rw [ran.references, tally, List.map_map]
    exact List.map_id _
  refine ⟨body, notes, _, laidOut, itemsFrom_footnoteItems ran.definitions (fun key member => ?_) 1, ?_⟩
  · rw [laidOut.keys]
    exact mem_of_mem_referredKeys (List.mem_eraseDups.mp member)
  · have ended : final.endFootnote = final := by
      unfold Draft.endFootnote
      simp only [closed]
    unfold Draft.finish
    simp only [ended]
    rw [written, List.reverse_reverse, withSection, Draft.footnoteSection, ← references]
    simp only [List.isEmpty_iff, List.map_eq_nil_iff]

/-- Written events each of whose tags is closed where it was opened. -/
inductive Balanced (sources : Sources) : List Event → Prop where
  | nil : Balanced sources []
  | single {event : Event} (single : event.isSingle = true) : Balanced sources [event]
  | around {tag : Tag} {opener : Event} {inner : List Event}
      (opened : Relabels (.start (openedTag sources tag)) opener) (inside : Balanced sources inner) :
      Balanced sources (opener :: (inner ++ [.stop tag]))
  | append {front back : List Event} (first : Balanced sources front) (second : Balanced sources back) :
      Balanced sources (front ++ back)

variable {sources : Sources} {order earlier : List String} {images : Nat} {body : List Event}

theorem LaidOut.balanced (laidOut : LaidOut sources order images earlier events body notes) :
    Balanced sources body ∧ ∀ note ∈ notes, Balanced sources note.2 := by
  induction laidOut with
  | nil => exact ⟨.nil, fun note listed => by cases listed⟩
  | single single => exact ⟨.single (isSingle_singleOf single), fun note listed => by cases listed⟩
  | reference | unknown | code => exact ⟨.single rfl, fun note listed => by cases listed⟩
  | around noCode noNote opened inside ih => exact ⟨.around opened ih.1, ih.2⟩
  | note inside ih => exact ⟨.nil, fun note listed => List.mem_singleton.mp listed ▸ ih.1⟩
  | append first second ih ih' =>
    exact ⟨.append ih.1 ih'.1, fun note listed => (List.mem_append.mp listed).elim (ih.2 note) (ih'.2 note)⟩

namespace Balanced

/-- A single event may stand anywhere. -/
theorem insert {event : Event} (single : event.isSingle = true) (balanced : Balanced sources events) :
    ∀ front back, events = front ++ back → Balanced sources (front ++ event :: back) := by
  have alone : Balanced sources [event] := .single single
  induction balanced with
  | nil =>
    intro front back whole
    obtain ⟨rfl, rfl⟩ := List.append_eq_nil_iff.mp whole.symm
    exact alone
  | single other =>
    intro front back whole
    rcases List.append_eq_singleton_iff.mp whole.symm with ⟨rfl, rfl⟩ | ⟨rfl, rfl⟩
    · exact @Balanced.append _ [event] _ alone (.single other)
    · exact .append (.single other) alone
  | @around tag opener inner opened inside ih =>
    intro front back whole
    cases front with
    | nil =>
      rw [List.nil_append] at whole
      rw [← whole]
      exact @Balanced.append _ [event] _ alone (.around opened inside)
    | cons first front =>
      rw [List.cons_append, List.cons.injEq] at whole
      obtain ⟨rfl, rest⟩ := whole
      rcases List.append_eq_append_iff.mp rest with ⟨middle, rfl, last⟩ | ⟨middle, rfl, rfl⟩
      · rcases List.singleton_eq_append_iff.mp last with ⟨rfl, rfl⟩ | ⟨rfl, rfl⟩
        · have within := ih inner [] (by simp)
          simpa using Balanced.around opened within
        · simpa using Balanced.append (.around opened inside) alone
      · have within := ih front middle rfl
        simpa using Balanced.around opened within
  | append first second ih ih' =>
    intro front back whole
    rcases List.append_eq_append_iff.mp whole with ⟨middle, rfl, rfl⟩ | ⟨middle, rfl, rfl⟩
    · simpa using Balanced.append first (ih' middle back rfl)
    · simpa using Balanced.append (ih front middle rfl) second

theorem around_html {events : List Event} (balanced : Balanced sources events) (before after : String) :
    Balanced sources (.html before :: (events ++ [.html after])) :=
  @Balanced.append _ [.html before] _ (.single rfl) (.append balanced (.single rfl))

theorem itemOf (balanced : Balanced sources events) (written : ItemOf number events item) :
    Balanced sources item := by
  cases written with
  | inParagraph front back last => exact (balanced.insert rfl front _ rfl).around_html _ _
  | atEnd _ none => exact (balanced.insert rfl events [] (by simp)).around_html _ _

theorem itemsFrom {keys : List String} {items : List Event} (balanced : ∀ note ∈ notes, Balanced sources note.2)
    (written : ItemsFrom notes number keys items) : Balanced sources items := by
  induction written with
  | nil => exact .nil
  | @cons number key rest events item items defined first more ih =>
    obtain ⟨front, back, same, -⟩ := List.lookup_eq_some_iff.mp defined
    have listed : (key, events) ∈ notes := by rw [same]; simp
    exact .append ((balanced _ listed).itemOf first) ih

theorem withSection {items : List Event} (balanced : Balanced sources body) (written : Balanced sources items) :
    Balanced sources (withSection body order items) := by
  refine balanced.append ?_
  split
  · exact .nil
  · exact written.around_html _ _

/-- No tag is closed before one was opened. -/
theorem stop_not_first {tag : Tag} {rest : List Event} (balanced : Balanced sources events) :
    events ≠ .stop tag :: rest := by
  induction balanced generalizing rest with
  | nil => exact fun same => by cases same
  | single single =>
    rintro same
    obtain ⟨rfl, -⟩ := List.cons.inj same
    cases single
  | around opened =>
    intro same
    obtain ⟨rfl, -⟩ := List.cons.inj same
    generalize openedTag sources _ = tag at opened
    cases opened
  | @append front back first second ih ih' =>
    intro same
    cases front with
    | nil => exact ih' same
    | cons event front =>
      obtain ⟨rfl, -⟩ := List.cons.inj same
      exact ih rfl

end Balanced

/-- Where no footnote is defined inside another one, every event is written to one place, the body or the footnote
    that it stands in, and there all tags are closed where they were opened. -/
theorem diverted_footnotes_stay_whole (nested : WellNested events) (apart : notesApart false events = true) :
    let sources : Sources := ⟨extraction, registry, definedFootnotes events⟩
    let order := (referredKeys sources.defined events).eraseDups
    ∃ body notes items,
      LaidOut sources order 0 [] events body notes ∧ Balanced sources body ∧
      (∀ note ∈ notes, Balanced sources note.2) ∧ ItemsFrom notes 1 order items ∧
      (draftOfEvents extraction registry ids events).finish = withSection body order items ∧
      Balanced sources (draftOfEvents extraction registry ids events).finish := by
  obtain ⟨body, notes, items, laidOut, numbered, same⟩ := finish_of_wellNested extraction registry ids nested apart
  obtain ⟨whole, each⟩ := laidOut.balanced
  exact ⟨body, notes, items, laidOut, whole, each, numbered, same, same ▸ whole.withSection (.itemsFrom each numbered)⟩

/-- A footnote with a quotation in it is written as a whole. -/
theorem quotation_in_footnote :
    let events :=
      tagged .paragraph [.footnoteReference "a"] ++
        tagged (.footnoteDefinition "a") (tagged .blockQuote (tagged .paragraph [.text "q"]))
    WellNested events ∧ notesApart false events = true ∧
      Balanced ⟨.ofText "", .ofDiagramTag usualDiagramLanguage, definedFootnotes events⟩
        (draftOfEvents (.ofText "") (.ofDiagramTag usualDiagramLanguage) .sequential events).finish := by
  intro events
  have nested : WellNested events :=
    .append (.around rfl (.singles (by decide))) (.around rfl (.around rfl (.around rfl (.singles (by decide)))))
  have apart : notesApart false events = true := by decide
  obtain ⟨-, -, -, -, -, -, -, -, balanced⟩ := diverted_footnotes_stay_whole (.ofText "")
    (.ofDiagramTag usualDiagramLanguage) .sequential nested apart
  exact ⟨nested, apart, balanced⟩

/-- Where a footnote is defined in a quotation of another one, the start of the quotation is lost, and its end
    stands in the body. -/
theorem inner_footnote_breaks_outer :
    let extraction := Source.Extraction.ofText "[^a]: > [^b]: y\n\nq[^a][^b]\n"
    let registry := Code.Registry.ofDiagramTag usualDiagramLanguage
    let events := Markdown.parse extraction.text
    let written := (draftOfEvents extraction registry .sequential events).finish
    WellNested events ∧ Event.start .blockQuote ∈ events ∧ Event.start .blockQuote ∉ written ∧
      ¬ Balanced ⟨extraction, registry, definedFootnotes events⟩ written := by
  intro extraction registry events written
  have tree : events =
      tagged (.footnoteDefinition "a")
          (tagged .blockQuote (tagged (.footnoteDefinition "b") (tagged .paragraph [.text "y"]))) ++
        tagged .paragraph [.text "q", .footnoteReference "a", .footnoteReference "b"] := by decide +kernel
  have first : written.head? = some (.stop .blockQuote) := by decide +kernel
  refine ⟨?_, by decide +kernel, by decide +kernel, fun balanced => ?_⟩
  · rw [tree]
    exact .append (.around rfl (.around rfl (.around rfl (.around rfl (.singles (by decide))))))
      (.around rfl (.singles (by decide)))
  · obtain ⟨rest, same⟩ := List.head?_eq_some_iff.mp first
    exact balanced.stop_not_first same

end Galley
