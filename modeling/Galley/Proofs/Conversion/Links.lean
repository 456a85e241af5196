import Galley.Proofs.Conversion.Footnotes
import Galley.Proofs.Html.Cells
import Galley.Proofs.Markdown.Placed

/-!
# Links between references and footnotes

A reference leads to the item of its footnote, and the item leads back to the first reference. The item is always
there; the first reference is there if it does not stand in a footnote that is left out.

* `ShownAt`, `Shown`, `write_of_shown` — markup that is written as it is, because no image is open;
* `LaidOut.outsideImages` — what is written leaves no image open;
* `WritesFirst`, `LaidOut.first_reference` — a first reference is written;
* `KeepsFirstReferences` — a footnote that is left out holds no first reference;
* `footnote_links_lead_somewhere` — then both ends of every link are there;
* `back_reference_dangles` — but otherwise one can be missing.
-/

namespace Galley.Markdown

variable {page middle final : Page} {depth : Option Nat} {event : Event} {events front back : List Event}
  {markup : String}

/-! ## The writer -/

namespace Page

/-- A page with more markup, and so many tags open in an image. -/
structure Goes (page final : Page) (depth : Option Nat) : Prop where
  markup : ∃ more, final.markup = page.markup ++ more
  image : final.image.map Prod.snd = depth

namespace Goes

theorem refl (page : Page) : page.Goes page (page.image.map Prod.snd) := ⟨⟨"", String.append_empty.symm⟩, rfl⟩

theorem between (outside : page.image = none) : page.Goes page none := by
  have same := refl page
  rwa [outside] at same

theorem add (goes : page.Goes middle depth) (markup : String) : page.Goes (middle.add markup) depth := by
  obtain ⟨more, same⟩ := goes.markup
  exact ⟨⟨more ++ markup, by rw [add_markup, same, String.append_assoc]⟩, by rw [add_image, goes.image]⟩

theorem addOnLine (goes : page.Goes middle depth) (markup : String) : page.Goes (middle.addOnLine markup) depth :=
  goes.add _

theorem withImage {image : Option (LinkTarget × Nat)} (goes : page.Goes middle depth) :
    page.Goes { middle with image } (image.map Prod.snd) := ⟨goes.markup, rfl⟩

theorem of_same (goes : page.Goes middle depth) (markup : final.markup = middle.markup)
    (image : final.image = middle.image) : page.Goes final depth :=
  ⟨markup ▸ goes.markup, image ▸ goes.image⟩

theorem trans {depth' : Option Nat} (first : page.Goes middle depth) (second : middle.Goes final depth') :
    page.Goes final depth' := by
  obtain ⟨more, same⟩ := first.markup
  obtain ⟨more', same'⟩ := second.markup
  exact ⟨⟨more ++ more', by rw [same', same, String.append_assoc]⟩, second.image⟩

end Goes

theorem goes_openTag (outside : page.image = none) (tag : Tag) :
    page.Goes (page.openTag tag) ((Event.start tag).imageAfter none) := by
  have same := Goes.between outside
  cases tag with
  | list start => cases start <;> exact same.addOnLine _
  | paragraph | heading | blockQuote | codeBlock | item => exact same.addOnLine _
  | footnoteDefinition => exact same
  | table | tableHead | tableRow => exact (same.add _).of_same rfl rfl
  | image target => exact (same.add _).withImage
  | _ => exact same.add _

theorem goes_closeTag (outside : page.image = none) (tag : Tag) : page.Goes (page.closeTag tag) none := by
  have same := Goes.between outside
  cases tag with
  | list start => cases start <;> exact same.add _
  | footnoteDefinition | image => exact same
  | tableHead | tableCell => exact (same.add _).of_same rfl rfl
  | _ => exact same.add _

theorem goes_addToImage {target : LinkTarget} {tags : Nat} (inside : page.image = some (target, tags))
    (event : Event) : page.Goes (page.addToImage target tags event) (event.imageAfter (some tags)) := by
  have same : page.Goes page (some tags) := by
    have refl := Goes.refl page
    rwa [inside] at refl
  cases event with
  | start tag => exact same.withImage
  | stop tag =>
    cases tags with
    | zero => exact same.withImage.add _
    | succ tags => exact same.withImage
  | html | footnoteReference => cases tags <;> exact same
  | _ => cases tags <;> exact same.add _

/-- One event adds markup, and opens and closes tags in an image. -/
theorem goes_step (page : Page) (event : Event) :
    page.Goes (page.step event) (event.imageAfter (page.image.map Prod.snd)) := by
  unfold step
  cases image : page.image with
  | some inside =>
    obtain ⟨target, tags⟩ := inside
    exact goes_addToImage image event
  | none =>
    have same := Goes.between image
    cases event with
    | start tag => exact goes_openTag image tag
    | stop tag => exact goes_closeTag image tag
    | footnoteReference => exact same
    | rule => exact same.addOnLine _
    | _ => exact same.add _

theorem goes_foldl (page : Page) (events : List Event) :
    page.Goes (events.foldl step page) (imageAfterAll (page.image.map Prod.snd) events) := by
  induction events generalizing page with
  | nil => exact .refl page
  | cons event rest ih =>
    have first := goes_step page event
    have others := ih (page.step event)
    rw [first.image] at others
    exact first.trans others

end Page

/-- An event stands among others where so many tags are open in an image, if `base` of them are open before all. -/
def ShownAt (base depth : Option Nat) (event : Event) (events : List Event) : Prop :=
  ∃ front back, events = front ++ event :: back ∧ imageAfterAll base front = depth

/-- Some events hold markup that stands in no image. -/
abbrev Shown (event : Event) (events : List Event) : Prop := ShownAt none none event events

theorem imageAfter_single (single : event.isSingle = true) (depth : Option Nat) : event.imageAfter depth = depth := by
  rcases depth with _ | _ | depth <;> cases event <;> first | rfl | cases single

theorem imageAfterAll_single (single : event.isSingle = true) (depth : Option Nat) :
    imageAfterAll depth [event] = depth :=
  imageAfter_single single depth

namespace ShownAt

variable {base between : Option Nat}

theorem append_right (shown : ShownAt base depth event front) : ShownAt base depth event (front ++ back) := by
  obtain ⟨before, after, rfl, reached⟩ := shown
  exact ⟨before, after ++ back, by simp, reached⟩

theorem append_left (first : imageAfterAll base front = between) (shown : ShownAt between depth event back) :
    ShownAt base depth event (front ++ back) := by
  obtain ⟨before, after, rfl, reached⟩ := shown
  exact ⟨front ++ before, after, by simp, by rw [imageAfterAll_append, first, reached]⟩

theorem here : ShownAt depth depth event (event :: back) := ⟨[], back, rfl, rfl⟩

/-- One more single event hides nothing. -/
theorem insert {other : Event} (single : other.isSingle = true) (shown : ShownAt base depth event (front ++ back)) :
    ShownAt base depth event (front ++ other :: back) := by
  obtain ⟨before, after, same, reached⟩ := shown
  rcases List.append_eq_append_iff.mp same with ⟨middle, rfl, rfl⟩ | ⟨middle, rfl, rest⟩
  · refine ⟨front ++ other :: middle, after, by simp, ?_⟩
    rw [imageAfterAll_append] at reached ⊢
    rw [← List.singleton_append, imageAfterAll_append, imageAfterAll_single single, reached]
  · cases middle with
    | nil =>
      obtain rfl : event :: after = back := rest
      refine ⟨before ++ [other], after, by simp, ?_⟩
      rw [imageAfterAll_append, reached, imageAfterAll_single single]
    | cons first middle =>
      obtain ⟨rfl, -⟩ := List.cons.inj rest
      exact ⟨before, middle ++ other :: back, by simp, reached⟩

end ShownAt

theorem Page.markup_step {event : Event} (written : event = .html markup ∨ event = .inlineHtml markup)
    (outside : page.image = none) : (page.step event).markup = page.markup ++ markup := by
  unfold step
  rw [outside]
  rcases written with rfl | rfl <;> exact add_markup page markup

/-- Markup outside of images is written as it is. -/
theorem write_of_shown {event : Event} (written : event = .html markup ∨ event = .inlineHtml markup)
    (shown : Shown event events) : ∃ before after, write events = before ++ markup ++ after := by
  obtain ⟨front, back, rfl, outside⟩ := shown
  have reached := Page.goes_foldl .empty front
  have added := Page.markup_step written (Option.map_eq_none_iff.mp (reached.image.trans outside))
  obtain ⟨more, same⟩ := (Page.goes_foldl ((front.foldl Page.step .empty).step event) back).markup
  refine ⟨(front.foldl Page.step .empty).markup, more, ?_⟩
  rw [write, List.foldl_append, List.foldl_cons, same, added]

end Galley.Markdown

namespace Galley

open Galley.Markdown (Event Tag tagged imageAfterAll imageAfterAll_append imageAfterAll_single imagesPlain Shown
  ShownAt write_of_shown)

variable {sources : Sources} {order earlier : List String} {images number : Nat}
  {events front back inner body written item items : List Event} {notes : List Note} {tag : Tag} {event : Event}
  {key : String}

/-! ## Images -/

/-- Which events are laid out tells that they are well nested. -/
theorem LaidOut.wellNested (laidOut : LaidOut sources order images earlier events body notes) :
    WellNested events := by
  induction laidOut with
  | nil => exact .nil
  | single single => exact .single single
  | reference | unknown => exact .single rfl
  | around noCode _ _ _ ih => exact .around noCode ih
  | code info texts => exact .code info texts
  | note _ ih => exact .around rfl ih
  | append _ _ ih ih' => exact .append ih ih'

theorem Relabels.imageAfter_of_inline {opener : Event} (relabels : Relabels (.start (openedTag sources tag)) opener)
    (isInline : tag.isInline = true) (depth : Nat) : opener.imageAfter (some depth) = some (depth + 1) := by
  have same : opener = .start (openedTag sources tag) := by
    cases tag with
    | emphasis | strong | strikethrough | link | image => cases relabels; rfl
    | _ => cases isInline
  rw [same]
  rfl

theorem Relabels.imageAfter_of_image {opener : Event} (relabels : Relabels (.start (openedTag sources tag)) opener)
    (image : tag.isImage = true) : opener.imageAfter none = some 0 := by
  cases tag with
  | image => cases relabels; rfl
  | _ => cases image

theorem Relabels.imageAfter_of_other {opener : Event} (relabels : Relabels (.start (openedTag sources tag)) opener)
    (other : tag.isImage = false) : opener.imageAfter none = none := by
  cases tag with
  | image => cases other
  | _ => cases relabels <;> rfl

theorem imageAfterAll_around (opener : Event) (depth : Option Nat) :
    imageAfterAll depth (opener :: (written ++ [.stop tag])) =
      (Event.stop tag).imageAfter (imageAfterAll (opener.imageAfter depth) written) := by
  rw [← List.singleton_append, imageAfterAll_append, imageAfterAll_append]
  rfl

namespace LaidOut

/-- What is written in an image leaves it as deep as it was, and no footnote is read in it. -/
theorem inImage (laidOut : LaidOut sources order images earlier events body notes)
    (plain : imagesPlain images events = true) (inside : 0 < images) :
    (∀ depth, imageAfterAll (some depth) body = some depth) ∧ notes = [] := by
  induction laidOut with
  | nil => exact ⟨fun depth => rfl, rfl⟩
  | single single => exact ⟨fun depth => imageAfterAll_single (isSingle_singleOf single) _, rfl⟩
  | reference | unknown => exact ⟨fun depth => imageAfterAll_single rfl _, rfl⟩
  | @around _ _ tag opener inner written notes noCode noNote opened content ih =>
    obtain ⟨isInline, plain⟩ := content.wellNested.imagesPlain_inside plain
    obtain ⟨within, none⟩ := ih plain (Nat.add_pos_left inside _)
    refine ⟨fun depth => ?_, none⟩
    rw [imageAfterAll_around, opened.imageAfter_of_inline (isInline inside), within]
    rfl
  | code info texts => cases ((WellNested.texts texts).imagesPlain_inside plain).1 inside
  | note content => cases (content.wellNested.imagesPlain_inside plain).1 inside
  | append first second ih ih' =>
    rw [first.wellNested.imagesPlain_append, Bool.and_eq_true] at plain
    obtain ⟨front, none⟩ := ih plain.1 inside
    obtain ⟨back, none'⟩ := ih' plain.2 inside
    exact ⟨fun depth => by rw [imageAfterAll_append, front, back], by rw [none, none']; rfl⟩

/-- What is written leaves no image open, in the body and in the footnotes. -/
theorem outsideImages (laidOut : LaidOut sources order images earlier events body notes)
    (plain : imagesPlain images events = true) (outside : images = 0) :
    imageAfterAll none body = none ∧ ∀ note ∈ notes, imageAfterAll none note.2 = none := by
  induction laidOut with
  | nil => exact ⟨rfl, fun note listed => by cases listed⟩
  | single single => exact ⟨imageAfterAll_single (isSingle_singleOf single) _, fun note listed => by cases listed⟩
  | reference | unknown | code => exact ⟨rfl, fun note listed => by cases listed⟩
  | @around images _ tag opener inner written notes noCode noNote opened content ih =>
    obtain ⟨-, plain⟩ := content.wellNested.imagesPlain_inside plain
    rw [imageAfterAll_around]
    cases image : tag.isImage with
    | true =>
      have deeper : tag.imageCount ≠ 0 := fun none => by simp [Tag.imageCount_eq_zero.mp none] at image
      obtain ⟨within, rfl⟩ := content.inImage plain (by omega)
      rw [opened.imageAfter_of_image image, within]
      exact ⟨rfl, fun note listed => by cases listed⟩
    | false =>
      obtain ⟨within, each⟩ := ih plain (by rw [Tag.imageCount_eq_zero.mpr image, outside])
      rw [opened.imageAfter_of_other image, within]
      exact ⟨rfl, each⟩
  | note content ih =>
    obtain ⟨-, plain⟩ := content.wellNested.imagesPlain_inside plain
    exact ⟨rfl, fun note listed => List.mem_singleton.mp listed ▸ (ih plain outside).1⟩
  | append first second ih ih' =>
    rw [first.wellNested.imagesPlain_append, Bool.and_eq_true] at plain
    obtain ⟨front, each⟩ := ih plain.1 outside
    obtain ⟨back, each'⟩ := ih' plain.2 outside
    refine ⟨by rw [imageAfterAll_append, front, back], fun note listed => ?_⟩
    exact (List.mem_append.mp listed).elim (each note) (each' note)

end LaidOut

/-! ## First references -/

/-- An event is written for the first reference to a footnote: to the body, or to a footnote that is defined. -/
inductive WritesFirst (defined : List String) (event : Event) (key : String) (events body : List Event)
    (notes : List Note) : Prop where
  | inBody (shown : Shown event body)
  | inNote (front : List Event) (label : String) (inner back written : List Event) (before after : List Note)
      (definition : events = front ++ (tagged (.footnoteDefinition label) inner ++ back)) (nested : WellNested inner)
      (note : notes = before ++ (Draft.footnoteKey label, written) :: after)
      (keys : before.map Prod.fst = definedFootnotes front) (referred : key ∈ referredKeys defined inner)
      (first : key ∉ referredKeys defined front) (shown : Shown event written)

namespace WritesFirst

variable {defined : List String} {body' : List Event} {notes' : List Note}

theorem around {opener : Event} (writes : WritesFirst defined event key inner body notes)
    (other : tag.isFootnote = false) (outside : opener.imageAfter none = none) :
    WritesFirst defined event key (tagged tag inner) (opener :: (body ++ [.stop tag])) notes := by
  cases writes with
  | inBody shown =>
    rw [← List.singleton_append]
    exact .inBody (.append_left outside shown.append_right)
  | inNote front label content back written before after definition nested note keys referred first shown =>
    refine .inNote (.start tag :: front) label content (back ++ [.stop tag]) written before after ?_ nested note ?_
      referred first shown
    · rw [tagged, definition]
      simp
    · rw [keys]
      cases tag with
      | footnoteDefinition => cases other
      | _ => rfl

theorem note {label : String} (writes : WritesFirst defined event key inner body []) (nested : WellNested inner)
    (member : key ∈ referredKeys defined inner) :
    WritesFirst defined event key (tagged (.footnoteDefinition label) inner) [] [(Draft.footnoteKey label, body)] := by
  cases writes with
  | inBody shown =>
    exact .inNote [] label inner [] body [] [] (List.append_nil _).symm nested rfl rfl member List.not_mem_nil shown
  | inNote _ _ _ _ _ before _ _ _ note => simp at note

theorem append_right (writes : WritesFirst defined event key front body notes) :
    WritesFirst defined event key (front ++ back) (body ++ body') (notes ++ notes') := by
  cases writes with
  | inBody shown => exact .inBody shown.append_right
  | inNote before label inner after written earlier later definition nested note keys referred first shown =>
    exact .inNote before label inner (after ++ back) written earlier (later ++ notes') (by rw [definition]; simp)
      nested (by rw [note]; simp) keys referred first shown

theorem append_left (writes : WritesFirst defined event key back body' notes')
    (outside : imageAfterAll none body = none) (earlier : notes.map Prod.fst = definedFootnotes front)
    (fresh : key ∉ referredKeys defined front) :
    WritesFirst defined event key (front ++ back) (body ++ body') (notes ++ notes') := by
  cases writes with
  | inBody shown => exact .inBody (.append_left outside shown)
  | inNote before label inner after written earlier' later definition nested note keys referred first shown =>
    refine .inNote (front ++ before) label inner after written (notes ++ earlier') later (by rw [definition]; simp)
      nested (by rw [note]; simp) ?_ referred ?_ shown
    · rw [List.map_append, earlier, keys, definedFootnotes_append]
    · rw [referredKeys_append]
      exact fun member => (List.mem_append.mp member).elim fresh first

end WritesFirst

/-- The first reference to a footnote is written. -/
theorem LaidOut.first_reference (laidOut : LaidOut sources order images earlier events body notes)
    (plain : imagesPlain images events = true) (outside : images = 0)
    (member : key ∈ referredKeys sources.defined events) (fresh : key ∉ earlier) :
    WritesFirst sources.defined (.inlineHtml (Draft.referenceMarkup (order.idxOf key + 1) 1)) key events body
      notes := by
  induction laidOut with
  | nil => cases member
  | single single other =>
    rw [referredKeys_other other] at member
    cases member
  | @reference _ earlier label known =>
    have same : key = Draft.footnoteKey label := by
      simpa [referredKeys, referredKey?, known] using member
    rw [← same, List.count_eq_zero.mpr fresh]
    exact .inBody .here
  | unknown unknown => simp [referredKeys, referredKey?, unknown] at member
  | @around images _ tag opener inner written notes noCode noNote opened inside ih =>
    rw [referredKeys_tagged] at member
    obtain ⟨-, plain⟩ := inside.wellNested.imagesPlain_inside plain
    -- In an image there is no reference.
    have noImage : images + tag.imageCount = 0 := by
      by_contra image
      rw [inside.wellNested.referredKeys_eq_nil plain (Nat.pos_of_ne_zero image)] at member
      cases member
    have other := Tag.imageCount_eq_zero.mp (Nat.add_eq_zero_iff.mp noImage).2
    exact (ih plain noImage member fresh).around noNote (opened.imageAfter_of_other other)
  | code info texts =>
    rw [referredKeys_tagged, referredKeys_texts] at member
    cases member
  | note inside ih =>
    rw [referredKeys_tagged] at member
    obtain ⟨-, plain⟩ := inside.wellNested.imagesPlain_inside plain
    exact (ih plain outside member fresh).note inside.wellNested member
  | @append _ _ front back body body' notes notes' first second ih ih' =>
    rw [first.wellNested.imagesPlain_append, Bool.and_eq_true] at plain
    by_cases known : key ∈ referredKeys sources.defined front
    · exact (ih plain.1 outside known fresh).append_right
    · rw [referredKeys_append] at member
      have later := (List.mem_append.mp member).resolve_left known
      have unknown : key ∉ _ ++ referredKeys sources.defined front := fun member =>
        (List.mem_append.mp member).elim fresh known
      exact (ih' plain.2 outside later unknown).append_left (first.outsideImages plain.1 outside).1 first.keys known

/-! ## Items -/

theorem ItemOf.shown (made : ItemOf number events item) (outside : imageAfterAll none events = none) :
    Shown (.html ("<li id=\"fn-" ++ toString number ++ "\">\n")) item ∧ imageAfterAll none item = none ∧
      ∀ depth event, ShownAt none depth event events → ShownAt none depth event item := by
  have opening : imageAfterAll none [.html ("<li id=\"fn-" ++ toString number ++ "\">\n")] = none := rfl
  cases made with
  | inParagraph front back last =>
    refine ⟨.here, ?_, fun depth event shown => ?_⟩
    · have link (depth : Option Nat) : imageAfterAll depth [Draft.backReference number] = depth :=
        imageAfterAll_single rfl depth
      rw [imageAfterAll_append] at outside
      rw [← List.singleton_append, imageAfterAll_append, opening, imageAfterAll_append, imageAfterAll_append,
        ← List.singleton_append, imageAfterAll_append, link, outside]
      rfl
    · rw [← List.singleton_append]
      exact .append_left opening (shown.insert rfl).append_right
  | atEnd _ none =>
    refine ⟨.here, ?_, fun depth event shown => ?_⟩
    · rw [← List.singleton_append, imageAfterAll_append, opening, imageAfterAll_append, imageAfterAll_append, outside]
      rfl
    · rw [← List.singleton_append]
      exact .append_left opening shown.append_right.append_right

theorem ItemsFrom.shown {keys : List String} (made : ItemsFrom notes number keys items)
    (outside : ∀ note ∈ notes, imageAfterAll none note.2 = none) :
    imageAfterAll none items = none ∧ ∀ key ∈ keys,
      Shown (.html ("<li id=\"fn-" ++ toString (number + keys.idxOf key) ++ "\">\n")) items ∧
      ∀ depth event events, notes.lookup key = some events → ShownAt none depth event events →
        ShownAt none depth event items := by
  induction made with
  | nil => exact ⟨rfl, fun key member => by cases member⟩
  | @cons number first rest events item items defined made more ih =>
    obtain ⟨front, back, same, -⟩ := List.lookup_eq_some_iff.mp defined
    have listed : (first, events) ∈ notes := by rw [same]; simp
    obtain ⟨start, ends, keeps⟩ := made.shown (outside _ listed)
    obtain ⟨ends', each⟩ := ih
    refine ⟨by rw [imageAfterAll_append, ends, ends'], fun key member => ?_⟩
    by_cases here : first = key
    · subst here
      rw [List.idxOf_cons_self, Nat.add_zero]
      refine ⟨start.append_right, fun depth event events' found shown => ?_⟩
      rw [defined] at found
      exact (keeps depth event (Option.some.inj found ▸ shown)).append_right
    · obtain ⟨start', keeps'⟩ := each key ((List.mem_cons.mp member).resolve_left fun same => here same.symm)
      have shift : number + 1 + rest.idxOf key = number + (rest.idxOf key).succ := by omega
      rw [List.idxOf_cons_ne _ here, ← shift]
      exact ⟨.append_left ends start', fun depth event events' found shown =>
        .append_left ends (keeps' depth event events' found shown)⟩

/-- What is shown in an item is shown in the section behind the body. -/
theorem Markdown.ShownAt.inSection {depth : Option Nat} (inItems : ShownAt none depth event items)
    (outside : imageAfterAll none body = none) (some : order ≠ []) :
    ShownAt none depth event (withSection body order items) := by
  rw [withSection, if_neg some, ← List.singleton_append]
  exact .append_left outside (.append_left rfl inItems.append_right)

/-! ## Both ends -/

/-- A footnote that is left out, as nothing refers to it or an earlier one has its key, holds no first reference. -/
def KeepsFirstReferences (events : List Event) : Prop :=
  ∀ front label inner back, events = front ++ (tagged (.footnoteDefinition label) inner ++ back) → WellNested inner →
    (Draft.footnoteKey label ∈ referredKeys (definedFootnotes events) events ∧
      Draft.footnoteKey label ∉ definedFootnotes front) ∨
    ∀ key ∈ referredKeys (definedFootnotes events) inner, key ∈ referredKeys (definedFootnotes events) front

/-- No footnote is left out if each is referred to and none is defined twice. -/
theorem keepsFirstReferences_of_used
    (used : ∀ key ∈ definedFootnotes events, key ∈ referredKeys (definedFootnotes events) events)
    (once : (definedFootnotes events).Nodup) : KeepsFirstReferences events := by
  intro front label inner back same nested
  have split : definedFootnotes events =
      definedFootnotes front ++ (Draft.footnoteKey label :: (definedFootnotes inner ++ definedFootnotes back)) := by
    rw [same, definedFootnotes_append, definedFootnotes_append, definedFootnotes_footnote]
    rfl
  refine Or.inl ⟨used _ (by rw [split]; simp), fun member => ?_⟩
  rw [split] at once
  exact (List.nodup_append.mp once).2.2 _ member _ List.mem_cons_self rfl

/-- The first footnote with a key is the one that counts. -/
theorem lookup_of_first {before after : List Note} (first : key ∉ before.map Prod.fst) :
    (before ++ (key, written) :: after).lookup key = some written := by
  have absent : before.lookup key = none := by
    rw [List.lookup_eq_none_iff]
    intro note listed
    rw [bne_iff_ne]
    exact fun same => first (List.mem_map.mpr ⟨note, listed, same.symm⟩)
  rw [List.lookup_append, absent]
  simp

/-- References lead to the items of their footnotes, and the items back to first references. Every item is in the
    markup, and if no footnote that is left out holds a first reference, so is every first reference. -/
theorem footnote_links_lead_somewhere (extraction : Source.Extraction) (registry : Code.Registry)
    (ids : Diagram.Naming) (apart : notesApart false (Markdown.parse extraction.text) = true) :
    let events := Markdown.parse extraction.text
    let sources : Sources := ⟨extraction, registry, definedFootnotes events⟩
    let order := (referredKeys sources.defined events).eraseDups
    let html := (convert extraction registry ids).html
    ∃ body notes items, LaidOut sources order 0 [] events body notes ∧ ItemsFrom notes 1 order items ∧
      html = Markdown.write (withSection body order items) ∧
      ∀ key ∈ order,
        (∃ before after, html = before ++ ("<li id=\"fn-" ++ toString (order.idxOf key + 1) ++ "\">\n") ++ after) ∧
        (KeepsFirstReferences events →
          ∃ before after, html = before ++ Draft.referenceMarkup (order.idxOf key + 1) 1 ++ after) := by
  intro events sources order html
  obtain ⟨body, notes, items, laidOut, numbered, same⟩ :=
    finish_of_wellNested extraction registry ids (wellNested_parse extraction.text) apart
  have plain : imagesPlain 0 events = true := Markdown.imagesPlain_parse extraction.text
  obtain ⟨outside, each⟩ := laidOut.outsideImages plain rfl
  obtain ⟨-, shown⟩ := numbered.shown each
  have written : html = Markdown.write (withSection body order items) := congrArg Markdown.write same
  refine ⟨body, notes, items, laidOut, numbered, written, fun key member => ?_⟩
  rw [written]
  have some : order ≠ [] := List.ne_nil_of_mem member
  constructor
  · have item := (shown key member).1
    rw [Nat.add_comm] at item
    exact write_of_shown (Or.inl rfl) (item.inSection outside some)
  · intro keeps
    refine write_of_shown (Or.inr rfl) ?_
    cases laidOut.first_reference plain rfl (List.mem_eraseDups.mp member) List.not_mem_nil with
    | inBody inBody => exact inBody.append_right
    | inNote front label inner back content before after definition nested note keys referred first inNote =>
      rcases keeps front label inner back definition nested with ⟨used, new⟩ | earlier
      · rw [← keys] at new
        have inItems := (shown _ (List.mem_eraseDups.mpr used)).2 _ _ _ (note ▸ lookup_of_first new) inNote
        exact inItems.inSection outside some
      · exact absurd (earlier key referred) first

/-- A reference in a footnote leads to the next footnote, and that one back to it. -/
theorem linked_footnotes :
    let extraction := Source.Extraction.ofText "q[^a]\n\n[^b]: x\n\n[^a]: see [^b]\n"
    let events := Markdown.parse extraction.text
    let html := (convert extraction (.ofDiagramTag usualDiagramLanguage) .sequential).html
    notesApart false events = true ∧ KeepsFirstReferences events ∧
      (∃ before after, html = before ++ "<li id=\"fn-2\">\n" ++ after) ∧
      ∃ before after, html = before ++ Draft.referenceMarkup 2 1 ++ after := by
  intro extraction events html
  have apart : notesApart false events = true := by decide +kernel
  have keeps : KeepsFirstReferences events :=
    keepsFirstReferences_of_used (by decide +kernel) (by decide +kernel)
  obtain ⟨-, -, -, -, -, -, ends⟩ := footnote_links_lead_somewhere extraction
    (.ofDiagramTag usualDiagramLanguage) .sequential apart
  have order : (referredKeys (definedFootnotes events) events).eraseDups = ["a", "b"] := by decide +kernel
  obtain ⟨item, reference⟩ := ends "b" (by rw [order]; decide)
  rw [order] at item reference
  exact ⟨apart, keeps, item, reference keeps⟩

/-- The only reference to a footnote stands in one that is left out, so the link back leads nowhere. -/
theorem back_reference_dangles :
    let registry := Code.Registry.ofDiagramTag usualDiagramLanguage
    let html := (convert (.ofText "[^a]: see [^b]\n\n[^b]: x\n") registry .sequential).html
    let attributes := (Html.elementsOf (Html.parseFragment html)).flatMap Html.Element.attributes
    (∃ found ∈ attributes, found.name = "href" ∧ found.value = "#fnref-1") ∧
      ∀ found ∈ attributes, ¬ (found.name = "id" ∧ found.value = "fnref-1") := by
  decide +kernel

end Galley
