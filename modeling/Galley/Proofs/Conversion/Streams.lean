import Galley.Conversion
import Galley.Proofs.Markdown.Parsed

/-!
# Streams of events

Events in which every tag is closed where it was opened, seen as a tree: single events, tags with events inside,
and one stretch after another.

* `WellNested` — such events;
* `notesApart` — no footnote is defined inside another one;
* `referredKeys` — the footnotes that are referred to, in order and with repetitions;
* `notesApart_append`, `definedFootnotes_append`, `referredKeys_append` — how they go together;
* `WellNested.imagesPlain_append`, `WellNested.referredKeys_eq_nil` — no reference stands in an image;
* `wellNested_parse` — the events of a document are well nested.
-/

namespace Galley

open Galley.Markdown (Event Tag tagged Nested inCode imagesPlain imagesPlain_leaf)

/-- Whether an event neither opens nor closes a tag. -/
def Markdown.Event.isSingle : Event → Bool
  | .start _ => false
  | .stop _ => false
  | _ => true

/-- Whether a tag is the definition of a footnote. -/
def Markdown.Tag.isFootnote : Tag → Bool
  | .footnoteDefinition _ => true
  | _ => false

theorem Markdown.Tag.eq_of_isFootnote {tag : Tag} (note : tag.isFootnote = true) :
    ∃ label, tag = .footnoteDefinition label := by
  cases tag with
  | footnoteDefinition label => exact ⟨label, rfl⟩
  | _ => cases note

/-- Events each of whose tags is closed where it was opened. In a block of code stands nothing but text. -/
inductive WellNested : List Event → Prop where
  | nil : WellNested []
  | single {event : Event} (single : event.isSingle = true) : WellNested [event]
  | around {tag : Tag} {inner : List Event} (other : tag.isCode = false) (inside : WellNested inner) :
      WellNested (tagged tag inner)
  | code (info : Option String) (texts : List String) :
      WellNested (tagged (.codeBlock info) (texts.map .text))
  | append {front back : List Event} (first : WellNested front) (second : WellNested back) :
      WellNested (front ++ back)

theorem WellNested.singles {events : List Event} (singles : ∀ event ∈ events, event.isSingle = true) :
    WellNested events := by
  induction events with
  | nil => exact .nil
  | cons event rest ih =>
    obtain ⟨first, others⟩ := List.forall_mem_cons.mp singles
    exact .append (.single first) (ih others)

theorem WellNested.texts (texts : List String) : WellNested (texts.map .text) := by
  refine .singles fun event member => ?_
  obtain ⟨text, -, rfl⟩ := List.mem_map.mp member
  rfl

/-- Whether no footnote is defined inside another one. `inside` tells whether a definition is open. -/
def notesApart : (inside : Bool) → List Event → Bool
  | _, [] => true
  | inside, .start (.footnoteDefinition _) :: rest => !inside && notesApart true rest
  | _, .stop (.footnoteDefinition _) :: rest => notesApart false rest
  | inside, _ :: rest => notesApart inside rest

/-- The key of the footnote that an event refers to, if it is defined. -/
def referredKey? (defined : List String) : Event → Option String
  | .footnoteReference label =>
    if Draft.footnoteKey label ∈ defined then some (Draft.footnoteKey label) else none
  | _ => none

/-- The keys of the footnotes that events refer to, one for each reference. -/
def referredKeys (defined : List String) (events : List Event) : List String :=
  events.filterMap (referredKey? defined)

variable {inside : Bool} {defined : List String} {events front back inner : List Event} {tag : Tag}

/-! ## References and definitions -/

theorem referredKeys_append :
    referredKeys defined (front ++ back) = referredKeys defined front ++ referredKeys defined back :=
  List.filterMap_append

theorem referredKeys_tagged : referredKeys defined (tagged tag inner) = referredKeys defined inner := by
  rw [tagged, ← List.singleton_append, referredKeys_append, referredKeys_append]
  exact List.append_nil _

theorem referredKeys_texts (texts : List String) : referredKeys defined (texts.map .text) = [] := by
  simp [referredKeys, referredKey?]

theorem referredKeys_other {event : Event} (other : event.isReference = false) :
    referredKeys defined [event] = [] := by
  cases event with
  | footnoteReference label => cases other
  | _ => rfl

theorem mem_of_mem_referredKeys {key : String} (member : key ∈ referredKeys defined events) : key ∈ defined := by
  obtain ⟨event, -, found⟩ := List.mem_filterMap.mp member
  unfold referredKey? at found
  split at found
  next label =>
    split at found
    next known => exact Option.some.inj found ▸ known
    next => cases found
  next => cases found

theorem definedFootnotes_append :
    definedFootnotes (front ++ back) = definedFootnotes front ++ definedFootnotes back :=
  List.filterMap_append

theorem definedFootnotes_texts (texts : List String) : definedFootnotes (texts.map .text) = [] := by
  simp [definedFootnotes]

theorem definedFootnotes_footnote (label : String) :
    definedFootnotes (tagged (.footnoteDefinition label) inner) =
      Draft.footnoteKey label :: definedFootnotes inner := by
  simp [definedFootnotes, tagged]

theorem definedFootnotes_tagged (other : tag.isFootnote = false) :
    definedFootnotes (tagged tag inner) = definedFootnotes inner := by
  cases tag with
  | footnoteDefinition label => cases other
  | _ => simp [definedFootnotes, tagged]

/-! ## Footnotes inside footnotes -/

theorem notesApart_single {event : Event} (single : event.isSingle = true) :
    notesApart inside (event :: back) = notesApart inside back := by
  cases event <;> first | rfl | cases single

theorem notesApart_start (other : tag.isFootnote = false) :
    notesApart inside (.start tag :: back) = notesApart inside back := by
  cases tag with
  | footnoteDefinition label => cases other
  | _ => rfl

theorem notesApart_stop (other : tag.isFootnote = false) :
    notesApart inside (.stop tag :: back) = notesApart inside back := by
  cases tag with
  | footnoteDefinition label => cases other
  | _ => rfl

theorem notesApart_texts (texts : List String) :
    notesApart inside (texts.map .text ++ back) = notesApart inside back := by
  induction texts with
  | nil => rfl
  | cons text rest ih => exact ih

theorem tagged_append : tagged tag inner ++ back = .start tag :: (inner ++ (.stop tag :: back)) := by
  simp [tagged]

namespace WellNested

/-- After well-nested events a definition is open if one was before. -/
theorem notesApart_append (nested : WellNested front) :
    notesApart inside (front ++ back) = (notesApart inside front && notesApart inside back) := by
  induction nested generalizing inside back with
  | nil => rfl
  | single single => rw [List.singleton_append, notesApart_single single, notesApart_single single]; rfl
  | @around tag inner other nested ih =>
    rw [tagged_append, tagged]
    cases note : tag.isFootnote with
    | true =>
      obtain ⟨label, rfl⟩ := Tag.eq_of_isFootnote note
      cases inside with
      | true => rfl
      | false =>
        change notesApart true (inner ++ _) = (notesApart true (inner ++ _) && _)
        rw [ih, ih]
        simp [notesApart]
    | false =>
      rw [notesApart_start note, notesApart_start note, ih, ih, notesApart_stop note, notesApart_stop note]
      simp [notesApart]
  | code info texts =>
    rw [tagged_append, tagged, notesApart_start rfl, notesApart_start rfl, notesApart_texts, notesApart_texts,
      notesApart_stop rfl, notesApart_stop rfl]
    rfl
  | append first second ih ih' =>
    rw [List.append_assoc, ih, ih', ih, Bool.and_assoc]

theorem notesApart_inside (nested : WellNested inner) (other : tag.isFootnote = false)
    (apart : notesApart inside (tagged tag inner) = true) : notesApart inside inner = true := by
  rw [tagged, notesApart_start other, nested.notesApart_append, Bool.and_eq_true] at apart
  exact apart.1

/-- No definition is open where a footnote is defined, and none is opened in it. -/
theorem notesApart_footnote {label : String} (nested : WellNested inner)
    (apart : notesApart inside (tagged (.footnoteDefinition label) inner) = true) :
    inside = false ∧ notesApart true inner = true := by
  have both : (!inside && notesApart true (inner ++ [.stop (.footnoteDefinition label)])) = true := apart
  rw [nested.notesApart_append, Bool.and_eq_true, Bool.and_eq_true, Bool.not_eq_true'] at both
  exact ⟨both.1, both.2.1⟩

/-- Where a definition is open, no other one is opened. -/
theorem definedFootnotes_eq_nil (nested : WellNested events) (apart : notesApart true events = true) :
    definedFootnotes events = [] := by
  induction nested with
  | nil => rfl
  | @single event single => cases event <;> first | rfl | cases single
  | @around tag inner other nested ih =>
    cases note : tag.isFootnote with
    | true =>
      obtain ⟨label, rfl⟩ := Tag.eq_of_isFootnote note
      cases (nested.notesApart_footnote apart).1
    | false =>
      rw [definedFootnotes_tagged note]
      exact ih (nested.notesApart_inside note apart)
  | code info texts => exact (definedFootnotes_tagged rfl).trans (definedFootnotes_texts texts)
  | append first second ih ih' =>
    rw [first.notesApart_append, Bool.and_eq_true] at apart
    rw [definedFootnotes_append, ih apart.1, ih' apart.2]
    rfl

/-! ## Images -/

theorem imagesPlain_single {event : Event} (images : Nat) (single : event.isSingle = true) :
    imagesPlain images (event :: back) =
      ((images == 0 || (event.isLeaf && !event.isReference)) && imagesPlain images back) := by
  cases event <;> first | rfl | cases single

theorem imagesPlain_texts (images : Nat) (texts : List String) :
    imagesPlain images (texts.map .text ++ back) = imagesPlain images back := by
  induction texts with
  | nil => rfl
  | cons text rest ih => exact (imagesPlain_leaf rfl (Or.inr rfl)).trans ih

/-- After well-nested events as many images are open as before. -/
theorem imagesPlain_append (nested : WellNested front) (images : Nat) :
    imagesPlain images (front ++ back) = (imagesPlain images front && imagesPlain images back) := by
  induction nested generalizing images back with
  | nil => rfl
  | single single =>
    rw [List.singleton_append, imagesPlain_single images single, imagesPlain_single images single, imagesPlain,
      Bool.and_true]
  | around other nested ih =>
    rw [tagged_append, tagged, imagesPlain, imagesPlain, ih, ih, imagesPlain, imagesPlain, Nat.add_sub_cancel,
      imagesPlain, Bool.and_true, Bool.and_assoc]
  | code info texts =>
    rw [tagged_append, tagged, imagesPlain, imagesPlain, imagesPlain_texts, imagesPlain_texts, imagesPlain,
      imagesPlain, Nat.add_sub_cancel, imagesPlain, Bool.and_true]
  | append first second ih ih' => rw [List.append_assoc, ih, ih', ih, Bool.and_assoc]

theorem imagesPlain_inside {images : Nat} (nested : WellNested inner)
    (plain : imagesPlain images (tagged tag inner) = true) :
    (0 < images → tag.isInline = true) ∧ imagesPlain (images + tag.imageCount) inner = true := by
  rw [tagged, imagesPlain, nested.imagesPlain_append] at plain
  simp only [Bool.and_eq_true, Bool.or_eq_true, beq_iff_eq] at plain
  exact ⟨fun inside => plain.1.resolve_left (by omega), plain.2.1⟩

/-- No reference stands in an image. -/
theorem referredKeys_eq_nil {images : Nat} (nested : WellNested events) (plain : imagesPlain images events = true)
    (inside : 0 < images) : referredKeys defined events = [] := by
  induction nested generalizing images with
  | nil => rfl
  | @single event single =>
    cases event with
    | footnoteReference label =>
      rw [imagesPlain_single images single, beq_eq_false_iff_ne.mpr (Nat.ne_of_gt inside)] at plain
      cases plain
    | _ => rfl
  | around other nested ih =>
    rw [referredKeys_tagged]
    exact ih (nested.imagesPlain_inside plain).2 (Nat.add_pos_left inside _)
  | code info texts => rw [referredKeys_tagged, referredKeys_texts]
  | append first second ih ih' =>
    rw [first.imagesPlain_append, Bool.and_eq_true] at plain
    rw [referredKeys_append, ih plain.1 inside, ih' plain.2 inside]
    rfl

end WellNested

/-! ## Documents -/

/-- What may stand in a tag: text in code, and well-nested events in all others. -/
def FitsIn (tag : Tag) (inner : List Event) : Prop :=
  (tag.isCode = false ∧ WellNested inner) ∨
    ∃ (info : Option String) (texts : List String), tag = .codeBlock info ∧ inner = texts.map .text

theorem FitsIn.tagged (fits : FitsIn tag inner) : WellNested (tagged tag inner) := by
  rcases fits with ⟨other, nested⟩ | ⟨info, texts, rfl, rfl⟩
  · exact .around other nested
  · exact .code info texts

theorem fitsIn_nil (tag : Tag) : FitsIn tag [] := by
  cases tag with
  | codeBlock info => exact Or.inr ⟨info, [], rfl, rfl⟩
  | _ => exact Or.inl ⟨rfl, .nil⟩

/-- Events that close the tags that are open, each behind what may stand in it. -/
inductive Closing : List Tag → List Event → Prop where
  | done {events : List Event} (nested : WellNested events) : Closing [] events
  | tag {tag : Tag} {outer : List Tag} {inner rest : List Event} (fits : FitsIn tag inner)
      (more : Closing outer rest) : Closing (tag :: outer) (inner ++ .stop tag :: rest)

variable {stack : List Tag} {rest : List Event}

theorem Closing.prepend (closing : Closing stack rest) (nested : WellNested front)
    (text : inCode stack = true → ∃ texts : List String, front = texts.map .text) : Closing stack (front ++ rest) := by
  cases closing with
  | done nested' => exact .done (.append nested nested')
  | @tag tag outer inner rest fits more =>
    rw [← List.append_assoc]
    refine .tag ?_ more
    rcases fits with ⟨other, nested'⟩ | ⟨info, texts, rfl, rfl⟩
    · exact Or.inl ⟨other, .append nested nested'⟩
    · obtain ⟨before, rfl⟩ := text rfl
      exact Or.inr ⟨info, before ++ texts, rfl, by rw [List.map_append]⟩

theorem closing_of_nested (nested : Nested stack events) : Closing stack events := by
  induction events generalizing stack with
  | nil =>
    obtain rfl : stack = [] := nested
    exact .done .nil
  | cons event rest ih =>
    have alone (single : event.isSingle = true) (allowed : event.AllowedIn stack) (more : Nested stack rest) :
        Closing stack (event :: rest) := by
      refine (ih more).prepend (.single single) fun code => ?_
      obtain ⟨text, rfl⟩ := allowed.2 code
      exact ⟨[text], rfl⟩
    cases event with
    | start tag =>
      cases ih nested.2 with
      | @tag _ _ inner rest fits more =>
        have before : Event.start tag :: (inner ++ .stop tag :: rest) = tagged tag inner ++ rest := by simp [tagged]
        rw [before]
        refine more.prepend fits.tagged fun code => ?_
        obtain ⟨text, same⟩ := nested.1.2 code
        cases same
    | stop tag =>
      obtain ⟨outer, rfl, inner⟩ := nested
      exact .tag (fitsIn_nil tag) (ih inner)
    | _ => exact alone rfl nested.1 nested.2

theorem wellNested_of_nested (nested : Nested [] events) : WellNested events := by
  cases closing_of_nested nested with
  | done nested => exact nested

/-- The events of a document are well nested. -/
theorem wellNested_parse (text : String) : WellNested (Markdown.parse text) :=
  wellNested_of_nested (Markdown.nested_parse text)

end Galley
