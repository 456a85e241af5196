import Galley.Proofs.Html.Anchors
import Galley.Proofs.Markdown.Drawn
import Galley.Proofs.Markdown.Levels

/-!
# The ids in the markup of events

The markup of events gives the ids of its headings and those in the markup that is put into it as it stands. In the text of
an image there are no tags, so nothing there gives an id.

* `Event.anchors`, `Event.Anchored` — the ids of an event that is written where it stands;
* `Page.Gives`, `Page.Gives.step` — the ids of a page, and those of one more event;
* `exists_anchors_write` — the ids in the markup of some events;
* `unlabelled_parse` — no heading of a document has an id before it gets one.
-/

namespace Galley.Markdown

open Galley.Html (Anchor Carries Cursor Takes anchorsOf anchorsOf_append anchorsOf_ofText decodedReversed)

variable {page : Page} {event : Event} {events : List Event} {depth : Option Nat} {given others : List Anchor}

/-- The ids of an event. -/
def Event.anchors : Event → List Anchor
  | .start (.heading _ (some id)) => [⟨true, id⟩]
  | .html markup => ((Html.Part.ofMarkup? markup).map anchorsOf).getD []
  | .inlineHtml markup => ((Html.Part.ofMarkup? markup).map anchorsOf).getD []
  | _ => []

/-- An event whose markup can be read where it stands. No item stands in an image. -/
def Event.Anchored : Option Nat → Event → Prop
  | none, .html markup => ∃ anchors, Carries markup anchors
  | none, .inlineHtml markup => ∃ anchors, Carries markup anchors
  | none, .start (.heading level _) => IsLevel level
  | none, .stop (.heading level _) => IsLevel level
  | some _, .start .item => False
  | _, _ => True

theorem anchors_of_carries {markup : String} (carries : Carries markup given) :
    (Event.html markup).anchors = given ∧ (Event.inlineHtml markup).anchors = given := by
  obtain ⟨parts, read, same⟩ := carries.ofMarkup?_eq
  simp [Event.anchors, read, same]

/-- Where the writer stands: in the text of an image, or else between tags. -/
def StandsAt : Option Nat → Cursor → Prop
  | none, cursor => ∃ reversed, cursor = .text reversed
  | some _, cursor => ∃ source reversed, cursor = .value "img" [("src", source)] "alt" reversed

/-- The markup of a page has no ids but those of the events that were written. -/
structure Page.Gives (page : Page) (given : List Anchor) (depth : Option Nat) : Prop where
  /-- It is read up to the place where the writer stands. -/
  markup : ∃ cursor parts, Takes (.text []) page.markup cursor parts ∧ StandsAt depth cursor ∧
    (anchorsOf parts).Sublist given
  /-- So many tags are open in an image. -/
  image : page.image.map Prod.snd = depth

/-! ## What is written around texts -/

/-- An address stays between its quotes. -/
theorem takes_escapeAddress (name : String) (attributes : List (String × String)) (key : String) (reversed : List Char)
    (address : String) : Takes (.value name attributes key reversed) (escapeAddress address)
      (.value name attributes key ((escapeAddress address).toList.reverse ++ reversed)) [] :=
  .inValue (not_mem_escapeAddress (.inl rfl) address) (not_mem_escapeAddress (.inr (.inl rfl)) address)
    (not_mem_escapeAddress (.inr (.inr rfl)) address)

/-- The title goes behind the attribute that is being read, and then the tag may end. -/
theorem takes_titleMarkup (name : String) (attributes : List (String × String)) (key : String) (reversed : List Char)
    (target : LinkTarget) : ∃ more key' reversed',
      Takes (.value name attributes key reversed) (Page.titleMarkup target) (.value name (attributes ++ more) key' reversed')
        [] ∧ (more = [] ∧ key' = key ∨ (∃ text, more = [(key, text)]) ∧ key' = "title") := by
  unfold Page.titleMarkup
  split
  · exact ⟨[], key, reversed, by rw [List.append_nil]; exact .empty _, .inl ⟨rfl, rfl⟩⟩
  · have opens : Takes (.value name attributes key reversed) "\" title=\""
        (.value name (attributes ++ [(key, decodedReversed reversed)]) "title" []) [] := ⟨rfl⟩
    exact ⟨[(key, decodedReversed reversed)], "title", _, opens.append (.value _ _ _ _ _), .inr ⟨⟨_, rfl⟩, rfl⟩⟩

theorem carries_headingMarkup {level : Nat} (isLevel : IsLevel level) (id : Option String) :
    Carries (Page.headingMarkup level id) (Event.start (.heading level id)).anchors := by
  obtain ⟨least, most⟩ := isLevel
  unfold Page.headingMarkup
  cases id with
  | none => interval_cases level <;> exact .ofMarkup (by decide)
  | some id =>
    have isName : Html.headingNames.contains ("h" ++ toString level) = true := by interval_cases level <;> decide
    have opens : Takes (.text []) ("<h" ++ toString level ++ " id=\"")
        (.value ("h" ++ toString level) [] "id" "".toList.reverse) [] := by interval_cases level <;> decide
    have whole := Carries.lastAttribute opens (by decide) id
    have ends : "\">" = "\"" ++ ">" := by decide
    rw [ends] at whole
    simp only [Html.Part.anchors, isName, List.nil_append, String.empty_append] at whole
    simpa [Event.anchors, String.append_assoc] using whole

theorem carries_headingEnd {level : Nat} (isLevel : IsLevel level) : Carries ("</h" ++ toString level ++ ">\n") [] := by
  obtain ⟨least, most⟩ := isLevel
  interval_cases level <;> exact .ofMarkup (by decide)

theorem carries_cell (page : Page) (alignment : Option Alignment) :
    Carries ("<" ++ page.cellName ++ Page.alignmentMarkup alignment) [] ∧ Carries ("</" ++ page.cellName ++ ">") [] := by
  unfold Page.cellName Page.alignmentMarkup
  split <;> split <;> exact ⟨.ofMarkup (by decide), .ofMarkup (by decide)⟩

theorem carries_list (start : Nat) :
    Carries (if start == 1 then "<ol>\n" else "<ol start=\"" ++ toString start ++ "\">\n") [] := by
  split
  · exact .ofMarkup (by decide)
  · have opens : Takes (.text []) "<ol start=\"" (.value "ol" [] "start" "".toList.reverse) [] := by decide
    have ends : "\">\n" = "\">" ++ "\n" := by decide
    have lineEnd : Carries "\n" [] := .ofMarkup (by decide)
    have whole := (Carries.lastAttribute opens (by decide) (toString start)).append lineEnd
    rw [escapeAttribute_eq_self (plain_toString start), String.append_assoc, String.append_assoc, ← ends,
      ← String.append_assoc] at whole
    exact whole

theorem carries_link (mailbox : Bool) (target : LinkTarget) :
    Carries ("<a href=\"" ++ (if mailbox then "mailto:" else "") ++ escapeAddress target.destination ++
      Page.titleMarkup target ++ "\">") [] := by
  obtain ⟨reversed, opens⟩ : ∃ reversed, Takes (.text []) ("<a href=\"" ++ if mailbox then "mailto:" else "")
      (.value "a" [] "href" reversed) [] := by
    cases mailbox
    · exact ⟨[], by decide⟩
    · exact ⟨"mailto:".toList.reverse, by decide⟩
  have address := opens.append (takes_escapeAddress "a" [] "href" reversed target.destination)
  obtain ⟨more, key, value, title, said⟩ := takes_titleMarkup "a" [] "href" _ target
  have ends : Takes (.value "a" ([] ++ more) key value) "\">" (.text [])
      [.start "a" ([] ++ more ++ [(key, decodedReversed value)])] := ⟨rfl⟩
  refine .ofTakes ((address.append title).append ends) ?_
  rcases said with ⟨rfl, rfl⟩ | ⟨⟨text, rfl⟩, rfl⟩ <;> rfl

namespace Page.Gives

/-- More ids are allowed. -/
theorem mono (gives : page.Gives given depth) (others : List Anchor) : page.Gives (given ++ others) depth := by
  obtain ⟨⟨cursor, parts, takes, stands, within⟩, image⟩ := gives
  exact ⟨⟨cursor, parts, takes, stands, within.trans (List.sublist_append_left _ _)⟩, image⟩

/-- Markup goes on from where the writer stood. -/
theorem goesOn {page' : Page} {markup : String} {start stop : Cursor} {parts more : List Html.Part}
    (takes : Takes (.text []) page.markup start parts) (within : (anchorsOf parts).Sublist given)
    (adds : Takes start markup stop more) (same : anchorsOf more = others) (stands : StandsAt depth stop)
    (written : page'.markup = page.markup ++ markup) (image : page'.image.map Prod.snd = depth) :
    page'.Gives (given ++ others) depth := by
  refine ⟨⟨stop, parts ++ more, ?_, stands, ?_⟩, image⟩
  · rw [written]
    exact takes.append adds
  · rw [anchorsOf_append, same]
    exact within.append_right others

theorem addCarried {markup : String} (gives : page.Gives given none) (carries : Carries markup others) :
    (page.add markup).Gives (given ++ others) none := by
  obtain ⟨⟨_, parts, takes, ⟨reversed, rfl⟩, within⟩, image⟩ := gives
  obtain ⟨rest, more, adds, same⟩ := carries reversed
  exact goesOn takes within adds same ⟨rest, rfl⟩ (add_markup _ _) (by rwa [add_image])

theorem add {markup : String} (gives : page.Gives given none) (carries : Carries markup []) :
    (page.add markup).Gives given none := by
  have more := gives.addCarried carries
  rwa [List.append_nil] at more

theorem addOnLine {markup : String} (gives : page.Gives given none) (carries : Carries markup others) :
    (page.addOnLine markup).Gives (given ++ others) none := by
  have lineBreak : Carries "\n" [] := .ofMarkup (by decide)
  unfold Page.addOnLine
  split
  · exact gives.addCarried carries
  · exact gives.addCarried (lineBreak.append carries)

theorem of_same {page' : Page} (gives : page.Gives given depth) (markup : page'.markup = page.markup)
    (image : page'.image = page.image) : page'.Gives given depth where
  markup := markup ▸ gives.markup
  image := image ▸ gives.image

/-- What holds no bracket and no quote goes on with the text of an image. -/
theorem addToText {markup : String} {tags : Nat} (gives : page.Gives given (some tags))
    (clean : ∀ c, c = '<' ∨ c = '>' ∨ c = '\x22' → c ∉ markup.toList) : (page.add markup).Gives given (some tags) := by
  obtain ⟨⟨_, parts, takes, ⟨source, reversed, rfl⟩, within⟩, image⟩ := gives
  have adds : Takes (.value "img" [("src", source)] "alt" reversed) markup _ [] :=
    .inValue (clean _ (.inl rfl)) (clean _ (.inr (.inl rfl))) (clean _ (.inr (.inr rfl)))
  have more : (page.add markup).Gives (given ++ []) (some tags) :=
    goesOn takes within adds rfl ⟨source, _, rfl⟩ (add_markup _ _) (by rwa [add_image])
  rwa [List.append_nil] at more

/-! ### Tags -/

theorem openImage (gives : page.Gives given none) (target : LinkTarget) :
    Page.Gives { page.add ("<img src=\"" ++ escapeAddress target.destination ++ "\" alt=\"") with image := some (target, 0) }
      given (some 0) := by
  obtain ⟨⟨_, parts, takes, ⟨reversed, rfl⟩, within⟩, image⟩ := gives
  have opens : Takes (.text reversed) "<img src=\"" (.value "img" [] "src" [])
      (Html.Part.ofText (decodedReversed reversed) ++ []) := ⟨rfl⟩
  have address := takes_escapeAddress "img" [] "src" [] target.destination
  have between (value : List Char) : Takes (.value "img" [] "src" value) "\" alt=\""
      (.value "img" [("src", decodedReversed value)] "alt" []) [] := ⟨rfl⟩
  have nothing : anchorsOf (Html.Part.ofText (decodedReversed reversed) ++ [] ++ [] ++ []) = [] := by
    simp [anchorsOf_ofText]
  rw [← List.append_nil given]
  exact goesOn takes within ((opens.append address).append (between _)) nothing ⟨_, _, rfl⟩ (add_markup page _) rfl

theorem openTag (gives : page.Gives given none) (tag : Tag) (anchored : (Event.start tag).Anchored none) :
    (page.openTag tag).Gives (given ++ (Event.start tag).anchors) ((Event.start tag).imageAfter none) := by
  have line {markup : String} (carries : Carries markup []) : (page.addOnLine markup).Gives (given ++ []) none :=
    gives.addOnLine carries
  have plain {markup : String} (carries : Carries markup []) : (page.add markup).Gives (given ++ []) none :=
    gives.addCarried carries
  cases tag with
  | heading level id => exact gives.addOnLine (carries_headingMarkup anchored id)
  | list start =>
    cases start with
    | none => exact line (.ofMarkup (by decide))
    | some start => exact line (carries_list start)
  | footnoteDefinition => exact gives.mono []
  | table => exact (plain (.ofMarkup (by decide))).of_same rfl rfl
  | tableHead => exact (plain (.ofMarkup (by decide))).of_same rfl rfl
  | tableRow => exact (plain (.ofMarkup (by decide))).of_same rfl rfl
  | tableCell => exact plain (carries_cell page _).1
  | link mailbox target => exact plain (carries_link mailbox target)
  | image target => exact (gives.openImage target).mono []
  | paragraph => exact line (.ofMarkup (by decide))
  | blockQuote => exact line (.ofMarkup (by decide))
  | codeBlock => exact line (.ofMarkup (by decide))
  | item => exact line (.ofMarkup (by decide))
  | emphasis => exact plain (.ofMarkup (by decide))
  | strong => exact plain (.ofMarkup (by decide))
  | strikethrough => exact plain (.ofMarkup (by decide))

theorem closeTag (gives : page.Gives given none) (tag : Tag) (anchored : (Event.stop tag).Anchored none) :
    (page.closeTag tag).Gives given none := by
  cases tag with
  | heading level id => exact gives.add (carries_headingEnd anchored)
  | list start =>
    cases start with
    | none => exact gives.add (.ofMarkup (by decide))
    | some start => exact gives.add (.ofMarkup (by decide))
  | footnoteDefinition => exact gives
  | image => exact gives
  | tableHead =>
    have added : (page.add "</tr></thead><tbody>\n").Gives given none := gives.add (.ofMarkup (by decide))
    exact added.of_same rfl rfl
  | tableCell => exact (gives.add (carries_cell page none).2).of_same rfl rfl
  | paragraph => exact gives.add (.ofMarkup (by decide))
  | blockQuote => exact gives.add (.ofMarkup (by decide))
  | codeBlock => exact gives.add (.ofMarkup (by decide))
  | item => exact gives.add (.ofMarkup (by decide))
  | table => exact gives.add (.ofMarkup (by decide))
  | tableRow => exact gives.add (.ofMarkup (by decide))
  | emphasis => exact gives.add (.ofMarkup (by decide))
  | strong => exact gives.add (.ofMarkup (by decide))
  | strikethrough => exact gives.add (.ofMarkup (by decide))
  | link => exact gives.add (.ofMarkup (by decide))

/-! ### Steps -/

/-- The tag of an image ends behind its text and its title. -/
theorem closeImage {target : LinkTarget} {tags : Nat} (gives : page.Gives given (some tags)) :
    (Page.add { page with image := none } (titleMarkup target ++ "\" />")).Gives given none := by
  obtain ⟨⟨_, parts, takes, ⟨source, reversed, rfl⟩, within⟩, image⟩ := gives
  obtain ⟨more, key, value, title, said⟩ := takes_titleMarkup "img" [("src", source)] "alt" reversed target
  have ends : Takes (.value "img" ([("src", source)] ++ more) key value) "\" />" (.text [])
      [.start "img" ([("src", source)] ++ more ++ [(key, decodedReversed value)])] := ⟨rfl⟩
  have nothing : anchorsOf ([] ++ [.start "img" ([("src", source)] ++ more ++ [(key, decodedReversed value)])]) = [] := by
    rcases said with ⟨rfl, rfl⟩ | ⟨⟨text, rfl⟩, rfl⟩ <;> rfl
  rw [← List.append_nil given]
  exact goesOn takes within (title.append ends) nothing ⟨[], rfl⟩ (add_markup { page with image := none } _)
    (by rw [add_image]; rfl)

theorem withTags {target : LinkTarget} {tags tags' : Nat} (gives : page.Gives given (some tags)) :
    Page.Gives { page with image := some (target, tags') } given (some tags') := by
  obtain ⟨markup, -⟩ := gives
  exact ⟨markup, rfl⟩

theorem addToImage {target : LinkTarget} {tags : Nat} (gives : page.Gives given (some tags)) (event : Event) :
    (page.addToImage target tags event).Gives given (event.imageAfter (some tags)) := by
  have escaped (text : String) : ∀ c, c = '<' ∨ c = '>' ∨ c = '\x22' → c ∉ (Text.escapeAttribute text).toList := by
    intro c special
    rw [Text.escapeAttribute, String.toList_ofList]
    exact Text.not_mem_escapeAttribute special _
  have fixed {markup : String} (clean : '<' ∉ markup.toList ∧ '>' ∉ markup.toList ∧ '\x22' ∉ markup.toList) :
      (page.add markup).Gives given (some tags) := by
    refine gives.addToText ?_
    rintro c (rfl | rfl | rfl)
    · exact clean.1
    · exact clean.2.1
    · exact clean.2.2
  cases event with
  | start tag => exact gives.withTags
  | stop tag =>
    cases tags with
    | zero => exact gives.closeImage
    | succ tags => exact gives.withTags
  | html markup => cases tags <;> exact gives
  | text text => cases tags <;> exact gives.addToText (escaped text)
  | code code => cases tags <;> exact gives.addToText (escaped code)
  | inlineHtml markup => cases tags <;> exact gives.addToText (escaped markup)
  | footnoteReference label => cases tags <;> exact gives
  | taskMarker isChecked =>
    have box : (page.add (if isChecked then "[x]" else "[ ]")).Gives given (some tags) :=
      fixed (by cases isChecked <;> decide)
    cases tags <;> exact box
  | softBreak | hardBreak | rule =>
    have space : (page.add " ").Gives given (some tags) := fixed (by decide)
    cases tags <;> exact space

/-- One event adds its own ids. -/
theorem step (gives : page.Gives given depth) (anchored : event.Anchored depth) :
    (page.step event).Gives (given ++ event.anchors) (event.imageAfter depth) := by
  have image := gives.image
  unfold Page.step
  cases inside : page.image with
  | some open' =>
    -- within an image all markup is read as text
    obtain ⟨target, tags⟩ := open'
    rw [inside] at image
    subst image
    exact (gives.addToImage event).mono _
  | none =>
    rw [inside] at image
    subst image
    cases event with
    | html markup =>
      obtain ⟨own, carries⟩ := anchored
      rw [(anchors_of_carries carries).1]
      exact gives.addCarried carries
    | inlineHtml markup =>
      obtain ⟨own, carries⟩ := anchored
      rw [(anchors_of_carries carries).2]
      exact gives.addCarried carries
    | start tag => exact gives.openTag tag anchored
    | stop tag => exact (gives.closeTag tag anchored).mono []
    | text text => exact gives.addCarried (.shown text)
    | code code =>
      have opens : Carries "<code>" [] := .ofMarkup (by decide)
      have ends : Carries "</code>" [] := .ofMarkup (by decide)
      exact gives.addCarried ((opens.append (.shown code)).append ends)
    | softBreak => exact gives.addCarried (.ofMarkup (by decide))
    | hardBreak => exact gives.addCarried (.ofMarkup (by decide))
    | rule => exact gives.addOnLine (.ofMarkup (by decide))
    | footnoteReference label => exact gives.mono []
    | taskMarker isChecked =>
      cases isChecked <;> exact gives.addCarried (.ofMarkup (by decide))

theorem foldl (gives : page.Gives given depth) (anchored : AllFrom Event.Anchored depth events) :
    (events.foldl Page.step page).Gives (given ++ events.flatMap Event.anchors) (imageAfterAll depth events) := by
  induction events generalizing page given depth with
  | nil =>
    rw [List.flatMap_nil, List.append_nil]
    exact gives
  | cons event rest ih =>
    rw [List.flatMap_cons, ← List.append_assoc]
    exact ih (gives.step anchored.1) anchored.2

end Page.Gives

/-- The markup of some events gives no ids but theirs, each as often at most. -/
theorem exists_anchors_write (anchored : AllFrom Event.Anchored none events) (ends : imageAfterAll none events = none) :
    ∃ parts, Html.Part.ofMarkup? (write events) = some parts ∧
      (anchorsOf parts).Sublist (events.flatMap Event.anchors) := by
  have start : Page.empty.Gives [] none := ⟨⟨_, [], .empty _, ⟨[], rfl⟩, List.Sublist.refl _⟩, rfl⟩
  obtain ⟨⟨cursor, parts, takes, stands, within⟩, -⟩ := start.foldl anchored
  rw [ends] at stands
  obtain ⟨reversed, rfl⟩ := stands
  refine ⟨_, takes.consistsOf.read, ?_⟩
  rwa [anchorsOf_append, anchorsOf_ofText, List.append_nil]

/-! ## Headings before they get their ids -/

/-- An event that is no heading with an id. -/
def Event.Unlabelled : Event → Prop
  | .start (.heading _ (some _)) => False
  | _ => True

theorem unlabelled_tagged {tag : Tag} (own : (Event.start tag).Unlabelled)
    (inner : ∀ event ∈ events, event.Unlabelled) : ∀ event ∈ tagged tag events, event.Unlabelled := by
  unfold tagged
  rw [List.forall_mem_cons, List.forall_mem_append, List.forall_mem_singleton]
  exact ⟨own, inner, trivial⟩

theorem unlabelled_contentEvents (definitions : Definitions) (content : Content) :
    ∀ event ∈ contentEvents definitions content, event.Unlabelled := by
  intro event member
  rcases inline_contentEvents definitions content event member with isInline | ⟨isChecked, rfl⟩
  · cases event with
    | start tag =>
      cases tag with
      | heading level id => cases isInline
      | _ => trivial
    | _ => trivial
  · trivial

theorem unlabelled_rowEvents {definitions : Definitions} {tag : Tag} (own : (Event.start tag).Unlabelled)
    (cells : List Content) : ∀ event ∈ rowEvents definitions tag cells, event.Unlabelled := by
  apply unlabelled_tagged own
  intro event member
  obtain ⟨cell, -, inside⟩ := List.mem_flatMap.mp member
  exact unlabelled_tagged (by trivial) (unlabelled_contentEvents definitions cell) event inside

mutual

theorem unlabelled_events (definitions : Definitions) (isTight : Bool) :
    (block : Block) → ∀ event ∈ block.events definitions isTight, event.Unlabelled
  | .paragraph content => by
    have inner := unlabelled_contentEvents definitions content
    unfold Block.events
    simp only
    split
    · exact inner
    · exact unlabelled_tagged (by trivial) inner
  | .heading level content => by
    unfold Block.events
    exact unlabelled_tagged (by trivial) (unlabelled_contentEvents definitions content)
  | .code info body => by
    unfold Block.events
    apply unlabelled_tagged (by trivial)
    split <;> simp [Event.Unlabelled]
  | .html markup => by simp [Block.events, Event.Unlabelled]
  | .rule => by simp [Block.events, Event.Unlabelled]
  | .table columns head rows => by
    unfold Block.events
    apply unlabelled_tagged (by trivial)
    rw [List.forall_mem_append]
    refine ⟨unlabelled_rowEvents (by trivial) head, ?_⟩
    intro event member
    obtain ⟨row, -, inside⟩ := List.mem_flatMap.mp member
    exact unlabelled_rowEvents (by trivial) row event inside
  | .task isChecked => by simp [Block.events, Event.Unlabelled]
  | .container kind blocks => by
    unfold Block.events
    refine unlabelled_tagged ?_ (unlabelled_eventsOf definitions _ blocks)
    cases kind <;> trivial

theorem unlabelled_eventsOf (definitions : Definitions) (isTight : Bool) :
    (blocks : List Block) → ∀ event ∈ Block.eventsOf definitions isTight blocks, event.Unlabelled
  | [] => by simp [Block.eventsOf]
  | block :: rest => by
    rw [Block.eventsOf, List.forall_mem_append]
    exact ⟨unlabelled_events definitions isTight block, unlabelled_eventsOf definitions isTight rest⟩

end

theorem unlabelled_mergeText (unlabelled : ∀ event ∈ events, event.Unlabelled) :
    ∀ event ∈ mergeText events, event.Unlabelled := by
  induction events with
  | nil => exact unlabelled
  | cons event rest ih =>
    obtain ⟨first, others⟩ := List.forall_mem_cons.mp unlabelled
    have merged := ih others
    change ∀ other ∈ consMerged event (mergeText rest), other.Unlabelled
    unfold consMerged
    split
    next a b more joined =>
      rw [joined] at merged
      exact List.forall_mem_cons.mpr ⟨trivial, (List.forall_mem_cons.mp merged).2⟩
    next => exact List.forall_mem_cons.mpr ⟨first, merged⟩

/-- No heading of a document has an id. -/
theorem unlabelled_parse (text : String) : ∀ event ∈ parse text, event.Unlabelled :=
  unlabelled_mergeText (unlabelled_eventsOf _ _ _)

end Galley.Markdown
