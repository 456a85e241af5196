import Galley.Proofs.Code.Spelling
import Galley.Proofs.Conversion.Landing
import Galley.Proofs.Shortcode

/-!
# Fragments in the markup of a document

Where a token stands in a text that is written without tokens, its fragment stands in the markup of the document as the
author wrote it, up to the escapes of the place. Only in the text of an image the shortcodes of a fragment are replaced.

* `Slot`, `Event.slots` — the places where tokens are replaced;
* `Slot.Writes`, `Slot.Writes.split` — how a text is written in one of them;
* `title_written` — the title of an image is written where the image ends;
* `write_slot` — what is written for the text of a slot;
* `fragments_survive_conversion` — a fragment is written as it is;
* `shortcode_of_formula_is_replaced` — but not every one in the text of an image.
-/

namespace Galley

/-! ## Escapes -/

theorem Text.escapeText_append (a b : String) : escapeText (a ++ b) = escapeText a ++ escapeText b := by
  simp [escapeText]

theorem Text.escapeAttribute_append (a b : String) : escapeAttribute (a ++ b) = escapeAttribute a ++ escapeAttribute b := by
  simp [escapeAttribute]

theorem Markdown.escapeAddress_append (a b : String) : escapeAddress (a ++ b) = escapeAddress a ++ escapeAddress b := by
  simp [escapeAddress, Text.toList_bytes]

namespace Markdown

variable {page : Page} {target : LinkTarget} {tags : Nat} {depth reached : Option Nat} {event made : Event}
  {events : List Event}

/-! ## The writer -/

theorem Page.image_of_start (target : LinkTarget) (outside : page.image = none) :
    (page.step (.start (.image target))).image = some (target, 0) := by
  unfold step
  rw [outside]
  rfl

/-- An image that stays open after an event keeps its target. -/
theorem Page.image_step {tags' : Nat} (inside : page.image = some (target, tags))
    (stays : event.imageAfter (some tags) = some tags') : (page.step event).image = some (target, tags') := by
  unfold step
  rw [inside]
  cases event with
  | start tag =>
    cases stays
    rfl
  | stop tag =>
    cases tags with
    | zero => cases stays
    | succ tags =>
      cases stays
      rfl
  | html | footnoteReference => cases tags <;> cases stays <;> exact inside
  | _ => cases tags <;> cases stays <;> exact (add_image _ _).trans inside

/-- Only the end of a tag ends an image. -/
theorem Event.eq_stop_of_imageAfter (ends : event.imageAfter (some tags) = none) : tags = 0 ∧ ∃ tag, event = .stop tag := by
  cases tags with
  | zero =>
    cases event with
    | stop tag => exact ⟨rfl, tag, rfl⟩
    | _ => cases ends
  | succ tags => cases event <;> cases ends

/-- The title of an image is written where the image ends. -/
theorem title_written (inside : page.image = some (target, tags)) (ends : imageAfterAll (some tags) events = none) :
    ∃ before after, (events.foldl Page.step page).markup = before ++ Page.titleMarkup target ++ after := by
  -- The target of the image is followed up to the one stop that leaves no tag of it open.
  induction events generalizing page tags with
  | nil => cases ends
  | cons event rest ih =>
    cases after : event.imageAfter (some tags) with
    | some tags' =>
      have more : imageAfterAll (event.imageAfter (some tags)) rest = none := ends
      rw [after] at more
      exact ih (Page.image_step inside after) more
    | none =>
      obtain ⟨rfl, tag, rfl⟩ := Event.eq_stop_of_imageAfter after
      obtain ⟨more, same⟩ := (Page.goes_foldl (page.step (.stop tag)) rest).markup
      have closed : (page.step (.stop tag)).markup = page.markup ++ (Page.titleMarkup target ++ "\" />") := by
        unfold Page.step
        rw [inside]
        exact Page.add_markup _ _
      refine ⟨page.markup, "\" />" ++ more, ?_⟩
      rw [List.foldl_cons, same, closed]
      simp only [String.append_assoc]

/-- One event adds markup to a page, and a piece is part of it. -/
def Page.Adds (page : Page) (event : Event) (piece : String) : Prop :=
  ∃ before after, (page.step event).markup = page.markup ++ (before ++ piece ++ after)

namespace Page

theorem adds_text (text : String) (inside : page.image = some (target, tags)) :
    page.Adds (.text text) (Text.escapeAttribute text) := by
  refine ⟨"", "", ?_⟩
  rw [String.empty_append, String.append_empty]
  unfold step
  rw [inside]
  exact add_markup page _

theorem adds_code (code : String) (page : Page) :
    page.Adds (.code code) (if page.image.isSome then Text.escapeAttribute code else Text.escapeText code) := by
  cases image : page.image with
  | some open' =>
    refine ⟨"", "", ?_⟩
    rw [Option.isSome_some, if_pos rfl, String.empty_append, String.append_empty]
    unfold step
    rw [image]
    exact add_markup page _
  | none =>
    refine ⟨"<code>", "</code>", ?_⟩
    unfold step
    rw [image]
    exact add_markup page _

theorem adds_html (markup : String) (outside : page.image = none) : page.Adds (.html markup) markup := by
  refine ⟨"", "", ?_⟩
  rw [String.empty_append, String.append_empty]
  exact markup_step (.inl rfl) outside

theorem adds_link (mailbox : Bool) (target : LinkTarget) (outside : page.image = none) :
    page.Adds (.start (.link mailbox target)) (escapeAddress target.destination) ∧
      page.Adds (.start (.link mailbox target)) (titleMarkup target) := by
  have added : (page.step (.start (.link mailbox target))).markup = page.markup ++ ("<a href=\"" ++
      (if mailbox then "mailto:" else "") ++ escapeAddress target.destination ++ titleMarkup target ++ "\">") := by
    unfold step
    rw [outside]
    exact add_markup page _
  constructor
  · refine ⟨"<a href=\"" ++ (if mailbox then "mailto:" else ""), titleMarkup target ++ "\">", ?_⟩
    rw [added]
    simp only [String.append_assoc]
  · refine ⟨"<a href=\"" ++ (if mailbox then "mailto:" else "") ++ escapeAddress target.destination, "\">", ?_⟩
    rw [added]

theorem adds_image (target : LinkTarget) (outside : page.image = none) :
    page.Adds (.start (.image target)) (escapeAddress target.destination) := by
  refine ⟨"<img src=\"", "\" alt=\"", ?_⟩
  unfold step
  rw [outside]
  exact add_markup page _

end Page

/-- What is written for an event stands in the markup of all events around it. -/
theorem ShownAt.write {piece : String} (shown : ShownAt none reached made events)
    (adds : ∀ page : Page, page.image.map Prod.snd = reached → page.Adds made piece) :
    ∃ before after, Markdown.write events = before ++ piece ++ after := by
  obtain ⟨front, back, rfl, outside⟩ := shown
  have image := (Page.goes_foldl .empty front).image.trans outside
  obtain ⟨before, after, added⟩ := adds _ image
  obtain ⟨more, same⟩ := (Page.goes_foldl ((front.foldl Page.step .empty).step made) back).markup
  refine ⟨(front.foldl Page.step .empty).markup ++ before, after ++ more, ?_⟩
  rw [Markdown.write, List.foldl_append, List.foldl_cons, same, added]
  simp only [String.append_assoc]

/-- So does the title of an image, if the events end outside of images. -/
theorem ShownAt.write_title (shown : ShownAt none none (.start (.image target)) events)
    (outside : imageAfterAll none events = none) :
    ∃ before after, Markdown.write events = before ++ Page.titleMarkup target ++ after := by
  obtain ⟨front, back, rfl, reached⟩ := shown
  have image := Option.map_eq_none_iff.mp ((Page.goes_foldl .empty front).image.trans reached)
  have opened := Page.image_of_start target image
  have ends : imageAfterAll (some 0) back = none := by
    rw [imageAfterAll_append, reached] at outside
    exact outside
  rw [Markdown.write, List.foldl_append, List.foldl_cons]
  exact title_written opened ends

end Markdown

open Galley.Markdown (Event LinkTarget ShownAt imageAfterAll imageAfterAll_append imagesPlain)

variable {sources : Sources} {order : List String} {images : Nat} {reached : Option Nat} {event made : Event}
  {events front back rest : List Event} {text : String}

/-! ## Slots -/

/-- A place where tokens are replaced. -/
inductive Slot where
  /-- What a link or an image leads to. -/
  | address
  /-- The title of a link or an image. -/
  | title
  /-- Text of an image. -/
  | alternative
  /-- Code in the line, in an image or not. -/
  | code (inImage : Bool)
  /-- A block of code. -/
  | block
  deriving Repr, DecidableEq

/-- The slots of what a link or an image leads to. -/
def Markdown.LinkTarget.slots (target : LinkTarget) : List (Slot × String) :=
  [(.address, target.destination), (.title, target.title)]

/-- The slots of an event, in front of others, and the texts in them. A link or an image in the text of another image
    is not written, and so has none. -/
def Markdown.Event.slots (inImage : Bool) (rest : List Event) : Event → List (Slot × String)
  | .text t => if inImage then [(.alternative, t)] else []
  | .code t => [(.code inImage, t)]
  | .start (.codeBlock _) => [(.block, Galley.codeText rest)]
  | .start (.link _ target) => if inImage then [] else target.slots
  | .start (.image target) => if inImage then [] else target.slots
  | _ => []

namespace Slot

/-- A text without tokens as it is to be written in a slot: in the text of an image shortcodes are replaced. -/
def expanded (slot : Slot) (text : String) : String :=
  match slot with
  | .alternative => Shortcode.expand text
  | _ => text

/-- Markup is what is written for a text in a slot. -/
def Writes (slot : Slot) (text markup : String) : Prop :=
  match slot with
  | .address => markup = Markdown.escapeAddress text
  | .title => markup = Text.escapeAttribute text
  | .alternative => markup = Text.escapeAttribute text
  | .code inImage => markup = if inImage then Text.escapeAttribute text else Text.escapeText text
  | .block => Code.Spells text.toList markup.toList

theorem Writes.split {slot : Slot} {a b markup : String} (writes : slot.Writes (a ++ b) markup) :
    ∃ first second, markup = first ++ second ∧ slot.Writes a first ∧ slot.Writes b second := by
  cases slot with
  | address => exact ⟨_, _, Eq.trans writes (Markdown.escapeAddress_append a b), rfl, rfl⟩
  | title => exact ⟨_, _, Eq.trans writes (Text.escapeAttribute_append a b), rfl, rfl⟩
  | alternative => exact ⟨_, _, Eq.trans writes (Text.escapeAttribute_append a b), rfl, rfl⟩
  | code inImage =>
    cases inImage with
    | true => exact ⟨_, _, Eq.trans writes (Text.escapeAttribute_append a b), rfl, rfl⟩
    | false => exact ⟨_, _, Eq.trans writes (Text.escapeText_append a b), rfl, rfl⟩
  | block =>
    have spells : Code.Spells (a ++ b).toList markup.toList := writes
    rw [String.toList_append] at spells
    obtain ⟨first, second, same, left, right⟩ := spells.split
    refine ⟨.ofList first, .ofList second, ?_, ?_, ?_⟩
    · rw [← String.ofList_append, ← same, String.ofList_toList]
    · change Code.Spells a.toList (String.ofList first).toList
      rwa [String.toList_ofList]
    · change Code.Spells b.toList (String.ofList second).toList
      rwa [String.toList_ofList]

/-- What stands between delimiters is written by itself, whatever is around it. -/
theorem expanded_around (slot : Slot) {middle : String} (enclosed : Source.Enclosed middle.toList) (before after : String) :
    slot.expanded (before ++ middle ++ after) = slot.expanded before ++ slot.expanded middle ++ slot.expanded after := by
  cases slot with
  | alternative => exact Shortcode.expand_around enclosed before after
  | _ => rfl

theorem expanded_of_plain {slot : Slot} {text : String}
    (plain : slot = .alternative → Shortcode.holdsShortcode text.toList = false) : slot.expanded text = text := by
  cases slot with
  | alternative =>
    change Shortcode.expand text = text
    rw [Shortcode.expand_eq, Shortcode.expandChars_of_plain (plain rfl), String.ofList_toList]
  | _ => rfl

end Slot

/-! ## What is written for a slot -/

theorem codeText_texts (texts : List String) (info : Option String) (more : List Event) :
    codeText (texts.map .text ++ .stop (.codeBlock info) :: more) = String.join texts := by
  induction texts with
  | nil => rfl
  | cons text rest ih =>
    rw [String.join_cons, ← ih]
    rfl

theorem exists_titleMarkup (target : LinkTarget) :
    ∃ before, Markdown.Page.titleMarkup target = before ++ Text.escapeAttribute target.title := by
  unfold Markdown.Page.titleMarkup
  split
  next empty =>
    rw [String.isEmpty_iff.mp empty]
    exact ⟨"", rfl⟩
  next => exact ⟨_, rfl⟩

/-- No block is opened in an image. -/
theorem openImages_of_block {tag : Markdown.Tag} (plain : imagesPlain images (front ++ .start tag :: back) = true)
    (block : tag.isInline = false) : openImages images front = 0 := by
  -- The images are counted event by event up to the tag, and there none may be open.
  induction front generalizing images with
  | nil =>
    rw [List.nil_append, imagesPlain, block, Bool.or_false, Bool.and_eq_true, beq_iff_eq] at plain
    exact plain.1
  | cons event rest ih =>
    rw [List.cons_append] at plain
    cases event with
    | start other =>
      rw [imagesPlain, Bool.and_eq_true, ← imagesAfter_start] at plain
      exact ih plain.2
    | stop other =>
      rw [imagesPlain, ← imagesAfter_stop] at plain
      exact ih plain
    | _ =>
      rw [WellNested.imagesPlain_single images rfl, Bool.and_eq_true] at plain
      exact ih plain.2

/-- What is written for a target holds what is written for its slots. -/
theorem write_target {slot : Slot} {target : LinkTarget} {html : String} (listed : (slot, text) ∈ target.slots)
    (address : ∃ before after, html =
      before ++ Markdown.escapeAddress (Draft.unmaskTarget sources target).destination ++ after)
    (title : ∃ before after, html =
      before ++ Markdown.Page.titleMarkup (Draft.unmaskTarget sources target) ++ after) :
    ∃ before markup after, html = before ++ markup ++ after ∧
      slot.Writes (slot.expanded (sources.extraction.unmask text)) markup := by
  rcases List.mem_cons.mp listed with first | second
  · obtain ⟨rfl, rfl⟩ := Prod.mk.inj first
    obtain ⟨before, after, same⟩ := address
    exact ⟨before, _, after, same, rfl⟩
  · obtain ⟨rfl, rfl⟩ := Prod.mk.inj (List.mem_singleton.mp second)
    obtain ⟨before, after, same⟩ := title
    obtain ⟨quote, written⟩ := exists_titleMarkup (Draft.unmaskTarget sources target)
    refine ⟨before ++ quote, Text.escapeAttribute (Draft.unmaskTarget sources target).title, after, ?_, rfl⟩
    rw [same, written]
    simp only [String.append_assoc]

/-- What is written for the text of a slot. -/
theorem write_slot {slot : Slot} (spells : sources.registry.SpellsCode) (writes : WritesAs sources rest event made)
    (listed : (slot, text) ∈ event.slots reached.isSome rest) (shown : ShownAt none reached made events)
    (outside : imageAfterAll none events = none) (block : ∀ info, event = .start (.codeBlock info) → reached = none) :
    ∃ before markup after, Markdown.write events = before ++ markup ++ after ∧
      slot.Writes (slot.expanded (sources.extraction.unmask text)) markup := by
  cases writes with
  | text t =>
    cases reached with
    | none => cases listed
    | some depth =>
      obtain ⟨rfl, rfl⟩ := Prod.mk.inj (List.mem_singleton.mp listed)
      obtain ⟨before, after, same⟩ := shown.write fun page image => by
        obtain ⟨⟨target, tags⟩, inside, -⟩ := Option.map_eq_some_iff.mp image
        exact Markdown.Page.adds_text _ inside
      exact ⟨before, _, after, same, rfl⟩
  | code t =>
    obtain ⟨rfl, rfl⟩ := Prod.mk.inj (List.mem_singleton.mp listed)
    obtain ⟨before, after, same⟩ := shown.write fun page image => by
      have adds := Markdown.Page.adds_code (sources.extraction.unmask text) page
      rwa [← Option.isSome_map, image] at adds
    exact ⟨before, _, after, same, rfl⟩
  | link mailbox target =>
    cases reached with
    | some depth => cases listed
    | none =>
      have adds (page : Markdown.Page) (image : page.image.map Prod.snd = none) :=
        Markdown.Page.adds_link mailbox (Draft.unmaskTarget sources target) (Option.map_eq_none_iff.mp image)
      exact write_target listed (shown.write fun page image => (adds page image).1)
        (shown.write fun page image => (adds page image).2)
  | image target =>
    cases reached with
    | some depth => cases listed
    | none =>
      have address := shown.write fun page image =>
        Markdown.Page.adds_image (Draft.unmaskTarget sources target) (Option.map_eq_none_iff.mp image)
      exact write_target listed address (shown.write_title outside)
  | block info texts more diagrams content =>
    obtain rfl := block info rfl
    obtain ⟨rfl, rfl⟩ := Prod.mk.inj (List.mem_singleton.mp listed)
    obtain ⟨before, after, same⟩ := shown.write fun page image =>
      Markdown.Page.adds_html _ (Option.map_eq_none_iff.mp image)
    obtain ⟨opening, body, closing, rendered, spelled⟩ := Code.Registry.spells_render spells
      ⟨info.getD "", sources.extraction.unmask (String.join texts)⟩ diagrams
    refine ⟨before ++ opening, body, closing ++ after, ?_, ?_⟩
    · rw [same, rendered]
      simp only [String.append_assoc]
    · rw [content, codeText_texts]
      exact spelled

/-! ## Documents -/

theorem reveals_of_slots {slot : Slot} {inImage : Bool} (listed : (slot, text) ∈ event.slots inImage rest) :
    event.reveals inImage = true := by
  cases event with
  | text t =>
    cases inImage with
    | true => rfl
    | false => cases listed
  | code t => rfl
  | start tag => cases tag <;> first | rfl | cases listed
  | _ => cases listed

/-- Where a token stands in a text whose tokens are replaced, its fragment is written as the author wrote it, up to the
    escapes of the place, between what is written for the text on both sides. In the text of an image it must hold no
    shortcode. Where footnotes are defined inside one another, events are lost, and in a footnote that is left out they
    are not written. -/
theorem fragments_survive_conversion (source : String) (registry : Code.Registry) (ids : Diagram.Naming)
    (spells : registry.SpellsCode)
    (apart : notesApart false (Markdown.parse (Source.Extraction.ofText source).text) = true) :
    let extraction := Source.Extraction.ofText source
    let events := Markdown.parse extraction.text
    let html := (convert extraction registry ids).html
    ∀ front event rest, events = front ++ event :: rest →
      IsKept (referredKeys (definedFootnotes events) events) front →
    ∀ slot text, (slot, text) ∈ event.slots (decide (0 < openImages 0 front)) rest →
    ∀ before fragment after, extraction.HoldsToken text before fragment after →
      (slot = .alternative → Shortcode.holdsShortcode fragment.source.toList = false) →
      ∃ start left here right stop, html = start ++ (left ++ here ++ right) ++ stop ∧
        slot.Writes (slot.expanded (extraction.unmask (.ofList before))) left ∧
        slot.Writes fragment.source here ∧
        slot.Writes (slot.expanded (extraction.unmask (.ofList after))) right := by
  intro extraction events html front event rest split kept slot text listed before fragment after token plain
  obtain ⟨body, notes, items, laidOut, numbered, same⟩ :=
    finish_of_wellNested extraction registry ids (wellNested_parse extraction.text) apart
  have images : imagesPlain 0 events = true := Markdown.imagesPlain_parse extraction.text
  obtain ⟨outside, each⟩ := laidOut.outsideImages images rfl
  -- The event is written in the body or in a footnote, and shown at the end.
  obtain ⟨made, writes, lands⟩ := laidOut.lands images (iff_of_true rfl rfl) split (reveals_of_slots listed)
  obtain ⟨reached, level, shown⟩ := lands.shown kept.eraseDups outside each numbered
  have inImage : decide (0 < openImages 0 front) = reached.isSome := by
    cases reached with
    | none => simp [level.mp rfl]
    | some depth =>
      have deep : openImages 0 front ≠ 0 := fun none => by cases level.mpr none
      simp [Nat.pos_of_ne_zero deep]
  have block (info : Option String) (opens : event = .start (.codeBlock info)) : reached = none := by
    rw [split, opens] at images
    exact level.mpr (openImages_of_block images rfl)
  rw [inImage] at listed
  obtain ⟨start, markup, stop, written, whole⟩ :=
    write_slot spells writes listed shown (imageAfterAll_withSection outside (numbered.shown each).1) block
  -- Its text without tokens is the fragment with the text on both sides.
  have enclosed := Source.enclosed_of_mem_fragments token.mem_fragments
  simp only at whole
  rw [token.unmask (Source.Extraction.marked_ofText source), slot.expanded_around enclosed,
    Slot.expanded_of_plain plain] at whole
  obtain ⟨front', right, rfl, whole', last⟩ := whole.split
  obtain ⟨left, here, rfl, first, middle⟩ := whole'.split
  refine ⟨start, left, here, right, stop, ?_, first, middle, last⟩
  rw [← written, ← same]
  rfl

/-- A formula stands as it is in the text of an image in a footnote. -/
theorem formula_in_image_of_footnote :
    let extraction := Source.Extraction.ofText "x[^a]\n\n[^a]: ![p $y_1$ q](z)\n"
    let events := Markdown.parse extraction.text
    let front := events.take 7
    notesApart false events = true ∧ IsKept (referredKeys (definedFootnotes events) events) front ∧
      openImages 0 front = 1 ∧ events[7]? = some (.text "p \ue0000\ue001 q") ∧
      ∃ fragment, extraction.HoldsToken "p \ue0000\ue001 q" "p ".toList fragment " q".toList ∧
        Shortcode.holdsShortcode fragment.source.toList = false ∧
        ∃ start left right stop,
          (convert extraction (.ofDiagramTag usualDiagramLanguage) .sequential).html =
            start ++ (left ++ Text.escapeAttribute "$y_1$" ++ right) ++ stop := by
  intro extraction events front
  have apart : notesApart false events = true := by decide +kernel
  have kept : IsKept (referredKeys (definedFootnotes events) events) front := by decide +kernel
  have images : openImages 0 front = 1 := by decide +kernel
  have text : events[7]? = some (.text "p \ue0000\ue001 q") := by decide +kernel
  have split : events = front ++ .text "p \ue0000\ue001 q" :: events.drop 8 := by decide +kernel
  have listed : (Slot.alternative, "p \ue0000\ue001 q") ∈
      (Event.text "p \ue0000\ue001 q").slots (decide (0 < openImages 0 front)) (events.drop 8) := by
    rw [images]
    exact List.mem_singleton_self _
  have token : extraction.HoldsToken "p \ue0000\ue001 q" "p ".toList
      ⟨.mathInline, "$y_1$", "\ue0000\ue001"⟩ " q".toList :=
    ⟨"0\ue001 q".toList, by decide +kernel, by decide +kernel⟩
  have plain : Shortcode.holdsShortcode "$y_1$".toList = false := by decide +kernel
  obtain ⟨start, left, here, right, stop, html, -, written, -⟩ := fragments_survive_conversion
    "x[^a]\n\n[^a]: ![p $y_1$ q](z)\n" (.ofDiagramTag usualDiagramLanguage) .sequential
    (Code.spellsCode_ofDiagramTag _) apart front _ _ split kept _ _ listed _ _ _ token fun _ => plain
  have same : here = Text.escapeAttribute "$y_1$" := written
  exact ⟨apart, kept, images, text, _, token, plain, start, left, right, stop, same ▸ html⟩

/-- In the text of an image the shortcode of a formula gives way to its pictogram, so that the formula does not stand
    in the markup. -/
theorem shortcode_of_formula_is_replaced :
    let extraction := Source.Extraction.ofText "![$:smile:$](x)"
    let events := Markdown.parse extraction.text
    let html := (convert extraction (.ofDiagramTag usualDiagramLanguage) .sequential).html
    openImages 0 (events.take 2) = 1 ∧ events[2]? = some (.text "\ue0000\ue001") ∧
      extraction.fragments.map Source.Fragment.source = ["$:smile:$"] ∧
      extraction.unmask "\ue0000\ue001" = "$:smile:$" ∧
      html = "<p><img src=\"x\" alt=\"$😄$\" /></p>\n" ∧
      ¬ (Text.escapeAttribute "$:smile:$").toList <:+: html.toList := by
  decide +kernel

end Galley
