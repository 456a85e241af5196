import Galley.Proofs.Conversion.Links
import Galley.Proofs.Conversion.Rewriting

/-!
# Where an event is written

An event that may hold tokens is written once: in the body of the document, or in the footnote whose definition is open
where it stands. In a footnote it is shown if the footnote is referred to and its key is defined for the first time.

* `openImages`, `openNote` — the images and the footnote that are open behind some events;
* `WritesAs` — what is written for an event;
* `Lands`, `LaidOut.lands` — where it is written;
* `Lands.shown` — so it is shown in the document.
-/

namespace Galley

open Galley.Markdown (Event Tag tagged imageAfterAll imageAfterAll_append imagesPlain ShownAt)

variable {sources : Sources} {order earlier : List String} {images : Nat} {depth between : Option Nat} {last : Option String}
  {events front back inner rest body body' written : List Event} {notes notes' : List Note} {tag : Tag} {event made : Event}

/-! ## What is open -/

/-- How many images are open behind some events. -/
def openImages (images : Nat) (events : List Event) : Nat := events.foldl Draft.imagesAfter images

/-- The key of the footnote whose definition is open after an event. -/
def noteAfter (note : Option String) : Event → Option String
  | .start (.footnoteDefinition label) => some (Draft.footnoteKey label)
  | .stop (.footnoteDefinition _) => none
  | _ => note

/-- The key of the footnote whose definition is open behind some events. -/
def openNote (note : Option String) (events : List Event) : Option String := events.foldl noteAfter note

theorem openImages_append : openImages images (front ++ back) = openImages (openImages images front) back :=
  List.foldl_append

theorem openNote_append : openNote last (front ++ back) = openNote (openNote last front) back := List.foldl_append

theorem imagesAfter_start (tag : Tag) : Draft.imagesAfter images (.start tag) = images + tag.imageCount := by
  cases tag <;> rfl

theorem imagesAfter_stop (tag : Tag) : Draft.imagesAfter images (.stop tag) = images - tag.imageCount := by
  cases tag <;> rfl

theorem openImages_start (tag : Tag) :
    openImages images (.start tag :: front) = openImages (images + tag.imageCount) front := by
  rw [← imagesAfter_start]
  rfl

theorem openNote_of_isNoteTag (others : ∀ event ∈ events, event.isNoteTag = false) : openNote last events = last := by
  induction events with
  | nil => rfl
  | cons event rest ih =>
    obtain ⟨first, others⟩ := List.forall_mem_cons.mp others
    have same : noteAfter last event = last := by
      cases event with
      | start tag | stop tag => cases tag <;> first | rfl | cases first
      | _ => rfl
    exact (congrArg (openNote · rest) same).trans (ih others)

theorem openNote_start (other : tag.isFootnote = false) : openNote last (.start tag :: front) = openNote last front := by
  cases tag <;> first | rfl | cases other

theorem openNote_stop (other : tag.isFootnote = false) : openNote last [.stop tag] = last := by
  cases tag <;> first | rfl | cases other

theorem definedFootnotes_of_isNoteTag (others : ∀ event ∈ events, event.isNoteTag = false) :
    definedFootnotes events = [] := by
  rw [definedFootnotes, List.filterMap_eq_nil_iff]
  intro event member
  have other := others event member
  cases event with
  | start tag => cases tag <;> first | rfl | cases other
  | _ => rfl

theorem openImages_texts (texts : List String) : openImages images (texts.map .text) = images := by
  induction texts with
  | nil => rfl
  | cons text rest ih => exact ih

theorem openNote_texts (texts : List String) : openNote last (texts.map .text) = last := by
  refine openNote_of_isNoteTag fun event member => ?_
  obtain ⟨text, -, rfl⟩ := List.mem_map.mp member
  rfl

namespace WellNested

/-- Well-nested events close the images that they open. -/
theorem openImages (nested : WellNested events) : Galley.openImages images events = images := by
  induction nested generalizing images with
  | nil => rfl
  | @single event single => cases event <;> first | rfl | cases single
  | @around tag inner other inside ih =>
    rw [tagged, openImages_start, openImages_append, ih]
    exact (imagesAfter_stop tag).trans (Nat.add_sub_cancel images _)
  | code info texts =>
    rw [tagged, openImages_start, openImages_append, openImages_texts]
    rfl
  | append first second ih ih' => rw [openImages_append, ih, ih']

/-- Well-nested events close the footnotes that they open. -/
theorem openNote (nested : WellNested events) : Galley.openNote none events = none := by
  induction nested with
  | nil => rfl
  | @single event single => cases event <;> first | rfl | cases single
  | @around tag inner other inside ih =>
    cases isNote : tag.isFootnote with
    | true =>
      obtain ⟨label, rfl⟩ := Tag.eq_of_isFootnote isNote
      rw [tagged, ← List.cons_append, openNote_append]
      rfl
    | false => rw [tagged, openNote_start isNote, openNote_append, ih, openNote_stop isNote]
  | code info texts => rw [tagged, openNote_start rfl, openNote_append, openNote_texts, openNote_stop rfl]
  | append first second ih ih' => rw [openNote_append, ih, ih']

end WellNested

/-! ## What is written for an event -/

/-- Whether tokens in the texts of an event are replaced, in an image or not. -/
def Markdown.Event.reveals (inImage : Bool) : Event → Bool
  | .text _ => inImage
  | .code _ => true
  | .start (.codeBlock _) => true
  | .start (.link _ _) => true
  | .start (.image _) => true
  | _ => false

/-- What is written for an event whose tokens are replaced, in front of others. -/
inductive WritesAs (sources : Sources) (rest : List Event) : Event → Event → Prop where
  | text (t : String) : WritesAs sources rest (.text t) (.text (Shortcode.expand (sources.extraction.unmask t)))
  | code (t : String) : WritesAs sources rest (.code t) (.code (sources.extraction.unmask t))
  | link (mailbox : Bool) (target : Markdown.LinkTarget) :
      WritesAs sources rest (.start (.link mailbox target)) (.start (.link mailbox (Draft.unmaskTarget sources target)))
  | image (target : Markdown.LinkTarget) :
      WritesAs sources rest (.start (.image target)) (.start (.image (Draft.unmaskTarget sources target)))
  | block (info : Option String) (texts : List String) (more : List Event) (diagrams : Code.PassDiagrams)
      (content : rest = texts.map .text ++ .stop (.codeBlock info) :: more) :
      WritesAs sources rest (.start (.codeBlock info)) (.html (sources.registry.render
        ⟨info.getD "", sources.extraction.unmask (String.join texts)⟩ diagrams).1)

theorem WritesAs.extend (writes : WritesAs sources rest event made) (more : List Event) :
    WritesAs sources (rest ++ more) event made := by
  cases writes with
  | text t => exact .text t
  | code t => exact .code t
  | link mailbox target => exact .link mailbox target
  | image target => exact .image target
  | block info texts more' diagrams content => exact .block info texts (more' ++ more) diagrams (by simp [content])

/-- A single event whose tokens are replaced. -/
theorem writesAs_singleOf (single : event.isSingle = true) (reveals : event.reveals (decide (0 < images)) = true) :
    WritesAs sources rest event (singleOf sources images event) := by
  cases event with
  | text t =>
    have inside : 0 < images := of_decide_eq_true reveals
    rw [singleOf, if_pos inside]
    exact .text t
  | code t => exact .code t
  | start | stop => cases single
  | _ => cases reveals

/-- A tag whose tokens are replaced. -/
theorem writesAs_opened {opener : Event} {inImage : Bool} (noCode : tag.isCode = false)
    (reveals : (Event.start tag).reveals inImage = true) (opened : Relabels (.start (openedTag sources tag)) opener) :
    WritesAs sources rest (.start tag) opener := by
  cases tag with
  | codeBlock info => cases noCode
  | link mailbox target =>
    cases opened
    exact .link mailbox target
  | image target =>
    cases opened
    exact .image target
  | _ => cases reveals

/-! ## Where it is written -/

theorem split_singleton {only : Event} (split : [only] = front ++ event :: back) :
    front = [] ∧ event = only ∧ back = [] := by
  cases front with
  | nil =>
    obtain ⟨rfl, rfl⟩ := List.cons.inj split
    exact ⟨rfl, rfl, rfl⟩
  | cons first rest => simp at split

/-- An event of a list in two parts stands in the one or in the other. -/
theorem split_append {first second : List Event} (split : first ++ second = front ++ event :: back) :
    (∃ back', first = front ++ event :: back' ∧ back = back' ++ second) ∨
    (∃ front', front = first ++ front' ∧ second = front' ++ event :: back) := by
  rcases List.append_eq_append_iff.mp split with ⟨middle, rfl, same⟩ | ⟨middle, rfl, same⟩
  · exact Or.inr ⟨middle, rfl, same⟩
  · cases middle with
    | nil => exact Or.inr ⟨[], by simp, same.symm⟩
    | cons d middle =>
      obtain ⟨rfl, rfl⟩ := List.cons.inj same
      exact Or.inl ⟨middle, rfl, rfl⟩

/-- An event among those of a tag is its start, or stands inside, or is its end. -/
theorem split_tagged (split : tagged tag inner = front ++ event :: back) :
    (front = [] ∧ event = .start tag ∧ back = inner ++ [.stop tag]) ∨
    (∃ front' back', front = .start tag :: front' ∧ back = back' ++ [.stop tag] ∧ inner = front' ++ event :: back') ∨
    (event = .stop tag ∧ front = .start tag :: inner) := by
  cases front with
  | nil =>
    obtain ⟨rfl, rfl⟩ := List.cons.inj split
    exact Or.inl ⟨rfl, rfl, rfl⟩
  | cons first front' =>
    obtain ⟨rfl, rest⟩ := List.cons.inj split
    cases split_append rest with
    | inl within =>
      obtain ⟨back', rfl, rfl⟩ := within
      exact Or.inr (Or.inl ⟨front', back', rfl, rfl, rfl⟩)
    | inr behind =>
      obtain ⟨front'', rfl, last⟩ := behind
      obtain ⟨rfl, rfl, -⟩ := split_singleton last
      exact Or.inr (Or.inr ⟨rfl, by rw [List.append_nil]⟩)

/-- Where an event is written that stands behind some others, with so many images and tags in them open before all: in
    the body, or in the footnote that is open where it stands. -/
inductive Lands (images : Nat) (depth : Option Nat) (front : List Event) (made : Event) (body : List Event)
    (notes : List Note) : Prop where
  | inBody {reached : Option Nat} (outside : openNote none front = none)
      (same : reached = none ↔ openImages images front = 0) (shown : ShownAt depth reached made body)
  | inNote {reached : Option Nat} {key : String} {before after : List Note} {content : List Event}
      (inside : openNote none front = some key) (note : notes = before ++ (key, content) :: after)
      (keys : definedFootnotes front = before.map Prod.fst ++ [key])
      (same : reached = none ↔ openImages images front = 0) (shown : ShownAt none reached made content)

namespace Lands

theorem append_right (lands : Lands images depth front made body notes) :
    Lands images depth front made (body ++ body') (notes ++ notes') := by
  cases lands with
  | inBody outside same shown => exact .inBody outside same shown.append_right
  | @inNote _ key before after content inside split keys same shown =>
    have longer : notes ++ notes' = before ++ (key, content) :: (after ++ notes') := by
      rw [split, List.append_assoc, List.cons_append]
    exact .inNote inside longer keys same shown

theorem append_left (lands : Lands images depth rest made body' notes') (nested : WellNested front)
    (within : imageAfterAll depth body = depth) (read : notes.map Prod.fst = definedFootnotes front) :
    Lands images depth (front ++ rest) made (body ++ body') (notes ++ notes') := by
  have note : openNote none (front ++ rest) = openNote none rest := by rw [openNote_append, nested.openNote]
  have count : openImages images (front ++ rest) = openImages images rest := by
    rw [openImages_append, nested.openImages]
  cases lands with
  | inBody outside same shown => exact .inBody (note.trans outside) (count ▸ same) (.append_left within shown)
  | inNote inside split keys same shown =>
    refine .inNote (note.trans inside) (by rw [split, List.append_assoc]) ?_ (count ▸ same) shown
    rw [definedFootnotes_append, keys, ← read, List.map_append, List.append_assoc]

theorem around {opener : Event} (lands : Lands (images + tag.imageCount) between front made body notes)
    (other : tag.isFootnote = false) (opened : opener.imageAfter depth = between) :
    Lands images depth (.start tag :: front) made (opener :: (body ++ [.stop tag])) notes := by
  have note : openNote none (.start tag :: front) = openNote none front := openNote_start other
  have count := @openImages_start images front tag
  cases lands with
  | inBody outside same shown =>
    have deeper : imageAfterAll depth [opener] = between := opened
    rw [← List.singleton_append]
    exact .inBody (note.trans outside) (count ▸ same) (.append_left deeper shown.append_right)
  | inNote inside split keys same shown =>
    refine .inNote (note.trans inside) split ?_ (count ▸ same) shown
    rw [← keys, ← List.singleton_append, definedFootnotes_append]
    cases tag <;> first | rfl | cases other

theorem note {label : String} (lands : Lands 0 none front made body [])
    (others : ∀ event ∈ front, event.isNoteTag = false) :
    Lands 0 none (.start (.footnoteDefinition label) :: front) made [] [(Draft.footnoteKey label, body)] := by
  have none : definedFootnotes front = [] := definedFootnotes_of_isNoteTag others
  cases lands with
  | inBody outside same shown =>
    have inside : openNote (some (Draft.footnoteKey label)) front = some (Draft.footnoteKey label) :=
      openNote_of_isNoteTag others
    refine @inNote _ _ _ _ _ _ _ (Draft.footnoteKey label) [] [] body inside rfl ?_ same shown
    · rw [← List.singleton_append, definedFootnotes_append, none]
      rfl
  | @inNote _ _ before _ _ _ split => cases before <;> cases split

end Lands

/-- An image is open behind the start of a tag if one was open before, or the tag is an image. -/
theorem Relabels.imageAfter_eq_none_iff {opener : Event} (opened : Relabels (.start (openedTag sources tag)) opener)
    (same : depth = none ↔ images = 0) (block : 0 < images → tag.isInline = true) :
    opener.imageAfter depth = none ↔ images + tag.imageCount = 0 := by
  cases depth with
  | none =>
    rw [same.mp rfl, Nat.zero_add, Tag.imageCount_eq_zero]
    cases image : tag.isImage with
    | true => simp [opened.imageAfter_of_image image]
    | false => simp [opened.imageAfter_of_other image]
  | some depth =>
    have inside : images ≠ 0 := fun outside => by cases same.mpr outside
    rw [opened.imageAfter_of_inline (block (Nat.pos_of_ne_zero inside))]
    simp [inside]

namespace LaidOut

/-- What is written leaves as many tags open in an image as before. -/
theorem imageAfterAll (laidOut : LaidOut sources order images earlier events body notes)
    (plain : imagesPlain images events = true) (same : depth = none ↔ images = 0) :
    Markdown.imageAfterAll depth body = depth := by
  cases depth with
  | none => exact (laidOut.outsideImages plain (same.mp rfl)).1
  | some depth =>
    have inside : images ≠ 0 := fun outside => by cases same.mpr outside
    exact (laidOut.inImage plain (Nat.pos_of_ne_zero inside)).1 depth

/-- An event whose tokens are replaced is written where it stands. -/
theorem lands (laidOut : LaidOut sources order images earlier events body notes)
    (plain : imagesPlain images events = true) (same : depth = none ↔ images = 0)
    (split : events = front ++ event :: back)
    (reveals : event.reveals (decide (0 < openImages images front)) = true) :
    ∃ made, WritesAs sources back event made ∧ Lands images depth front made body notes := by
  -- Of what belongs to a tag only its start and what stands inside can hold tokens; an end never does.
  induction laidOut generalizing depth front back with
  | nil => simp at split
  | single single other =>
    obtain ⟨rfl, rfl, rfl⟩ := split_singleton split
    exact ⟨_, writesAs_singleOf single reveals, .inBody rfl same .here⟩
  | reference | unknown =>
    obtain ⟨rfl, rfl, rfl⟩ := split_singleton split
    cases reveals
  | @around images _ tag opener inner written notes noCode noNote opened inside ih =>
    obtain ⟨block, plain'⟩ := inside.wellNested.imagesPlain_inside plain
    cases split_tagged split with
    | inl start =>
      obtain ⟨rfl, rfl, rfl⟩ := start
      exact ⟨opener, writesAs_opened noCode reveals opened, .inBody rfl same .here⟩
    | inr later =>
      cases later with
      | inl within =>
        obtain ⟨front', back', rfl, rfl, rfl⟩ := within
        have deeper := opened.imageAfter_eq_none_iff same block
        rw [openImages_start] at reveals
        obtain ⟨made, writes, lands⟩ := ih plain' deeper rfl reveals
        exact ⟨made, writes.extend _, lands.around noNote rfl⟩
      | inr stop =>
        obtain ⟨rfl, -⟩ := stop
        cases reveals
  | @code images _ info texts diagrams =>
    cases split_tagged split with
    | inl start =>
      obtain ⟨rfl, rfl, rfl⟩ := start
      exact ⟨_, .block info texts [] diagrams rfl, .inBody rfl same .here⟩
    | inr later =>
      cases later with
      | inl within =>
        -- Text in code is not written by itself, and no code stands in an image.
        obtain ⟨front', back', rfl, rfl, content⟩ := within
        obtain ⟨before, after, rfl, rfl, same'⟩ := List.map_eq_append_iff.mp content
        obtain ⟨t, after', rfl, rfl, rfl⟩ := List.map_eq_cons_iff.mp same'
        have count : openImages images (.start (.codeBlock info) :: before.map .text) = images := openImages_texts before
        rw [count] at reveals
        cases ((WellNested.texts _).imagesPlain_inside plain).1 (of_decide_eq_true reveals)
      | inr stop =>
        obtain ⟨rfl, -⟩ := stop
        cases reveals
  | @note images _ label inner written inside ih =>
    cases split_tagged split with
    | inl start =>
      obtain ⟨rfl, rfl, rfl⟩ := start
      cases reveals
    | inr later =>
      cases later with
      | inl within =>
        obtain ⟨front', back', rfl, rfl, rfl⟩ := within
        obtain ⟨block, plain'⟩ := inside.wellNested.imagesPlain_inside plain
        -- No footnote is defined in an image, and none in another one.
        obtain rfl : images = 0 := by
          by_contra deep
          cases block (Nat.pos_of_ne_zero deep)
        obtain rfl : depth = none := same.mpr rfl
        obtain ⟨made, writes, lands⟩ := ih plain' same rfl reveals
        have others := inside.wellNested.isNoteTag_eq_false inside.keys.symm
        exact ⟨made, writes.extend _, lands.note fun event member => others event (by simp [member])⟩
      | inr stop =>
        obtain ⟨rfl, -⟩ := stop
        cases reveals
  | @append _ _ _ _ _ _ notes notes' first second ih ih' =>
    rw [first.wellNested.imagesPlain_append, Bool.and_eq_true] at plain
    cases split_append split with
    | inl inFirst =>
      obtain ⟨back', rfl, rfl⟩ := inFirst
      obtain ⟨made, writes, lands⟩ := ih plain.1 same rfl reveals
      exact ⟨made, writes.extend _, lands.append_right⟩
    | inr inSecond =>
      obtain ⟨front', rfl, rfl⟩ := inSecond
      rw [openImages_append, first.wellNested.openImages] at reveals
      obtain ⟨made, writes, lands⟩ := ih' plain.2 same rfl reveals
      exact ⟨made, writes, lands.append_left first.wellNested (first.imageAfterAll plain.1 same) first.keys⟩

end LaidOut

/-! ## Documents -/

/-- A place stands in no footnote that is left out: the one that is open there is referred to, and no earlier one has
    its key. -/
def IsKept (order : List String) (front : List Event) : Prop :=
  ∀ key ∈ openNote none front, key ∈ order ∧ (definedFootnotes front).count key = 1

instance (order : List String) (front : List Event) : Decidable (IsKept order front) := by
  unfold IsKept
  infer_instance

theorem IsKept.eraseDups (kept : IsKept order front) : IsKept order.eraseDups front := fun key inside =>
  ⟨List.mem_eraseDups.mpr (kept key inside).1, (kept key inside).2⟩

/-- A document ends outside of images. -/
theorem imageAfterAll_withSection {items : List Event} (outside : imageAfterAll none body = none)
    (outside' : imageAfterAll none items = none) : imageAfterAll none (withSection body order items) = none := by
  rw [withSection, imageAfterAll_append, outside]
  split
  next => rfl
  next =>
    rw [← List.singleton_append, imageAfterAll_append, imageAfterAll_append]
    change imageAfterAll (imageAfterAll none items) _ = none
    rw [outside']
    rfl

/-- What is written for an event is shown in the document, unless it stands in a footnote that is left out. -/
theorem Lands.shown {items : List Event} (lands : Lands 0 none front made body notes) (kept : IsKept order front)
    (outside : imageAfterAll none body = none) (each : ∀ note ∈ notes, imageAfterAll none note.2 = none)
    (numbered : ItemsFrom notes 1 order items) :
    ∃ reached, (reached = none ↔ openImages 0 front = 0) ∧ ShownAt none reached made (withSection body order items) := by
  cases lands with
  | inBody _ same shown => exact ⟨_, same, shown.append_right⟩
  | @inNote reached key before after content inside split keys same shown =>
    obtain ⟨used, once⟩ := kept key inside
    rw [keys, List.count_append, List.count_singleton_self] at once
    have new : key ∉ before.map Prod.fst := List.count_eq_zero.mp (by omega)
    have inItems := ((numbered.shown each).2 key used).2 _ _ _ (split ▸ lookup_of_first new) shown
    exact ⟨reached, same, inItems.inSection outside (List.ne_nil_of_mem used)⟩

end Galley
