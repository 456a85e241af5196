import Galley.Proofs.Markdown.Spots
import Galley.Proofs.Markdown.Written

/-!
# Where written events stand

The writer is either between tags or in the text of an image, which becomes the value of an attribute. Which of
the two it is depends on the tags before.

* `Event.imageAfter` — how many tags are open in an image after an event;
* `Event.Placed` — an event that puts no sentinel where no markup can stand;
* `AllFrom`, `PlacedFrom` — the same of some events, one after the other;
* `Page.Lands` — where the markup of a page ends;
* `leads_write` — the markup of some events.
-/

namespace Galley.Markdown

open Galley.Source (Marking Silent silent_of_plain)

variable {m : Marking} {page : Page} {event : Event} {depth : Option Nat} {events front back : List Event}

/-- How many tags are open in an image after an event, if an image is open. -/
def Event.imageAfter : Option Nat → Event → Option Nat
  | none, .start (.image _) => some 0
  | none, _ => none
  | some depth, .start _ => some (depth + 1)
  | some 0, .stop _ => none
  | some (depth + 1), .stop _ => some depth
  | some depth, _ => some depth

/-- Markup that leads from text to text, and text without sentinels in images. Code is no event of its own, and
    an item does not stand in an image. -/
def Event.Placed (m : Marking) : Option Nat → Event → Prop
  | none, .html markup => Leads m.opening (.text 0) markup (.text 0)
  | none, .inlineHtml markup => Leads m.opening (.text 0) markup (.text 0)
  | none, .start (.codeBlock _) => False
  | none, .stop (.codeBlock _) => False
  | none, _ => True
  | some _, .text t => Silent m t
  | some _, .inlineHtml markup => Silent m markup
  | some _, .start .item => False
  | some _, _ => True

/-- How many tags are open in an image after some events. -/
def imageAfterAll (depth : Option Nat) (events : List Event) : Option Nat :=
  events.foldl Event.imageAfter depth

/-- Events each of which suits the place where it stands. -/
def AllFrom (suits : Option Nat → Event → Prop) : Option Nat → List Event → Prop
  | _, [] => True
  | depth, event :: rest => suits depth event ∧ AllFrom suits (event.imageAfter depth) rest

/-- Events that put no sentinel where no markup can stand. -/
abbrev PlacedFrom (m : Marking) : Option Nat → List Event → Prop := AllFrom (Event.Placed m)

theorem imageAfterAll_append (front back : List Event) :
    imageAfterAll depth (front ++ back) = imageAfterAll (imageAfterAll depth front) back :=
  List.foldl_append

theorem allFrom_append {suits : Option Nat → Event → Prop} : AllFrom suits depth (front ++ back) ↔
    AllFrom suits depth front ∧ AllFrom suits (imageAfterAll depth front) back := by
  induction front generalizing depth with
  | nil => simp [AllFrom, imageAfterAll]
  | cons event rest ih => simp [AllFrom, ih, imageAfterAll, and_assoc]

namespace Page

/-- Where the markup of a page ends. -/
def spotOf : Option Nat → Spot
  | none => .text 0
  | some _ => .value 0

/-- The markup of a page ends between tags, or in the text of an image. -/
structure Lands (m : Marking) (page : Page) (depth : Option Nat) : Prop where
  /-- Sentinels stand where markup can. -/
  markup : Leads m.opening (.text 0) page.markup (spotOf depth)
  /-- As many tags are open in the image. -/
  image : page.image.map Prod.snd = depth
  /-- The title of an open image holds no sentinel. -/
  title : ∀ target depth, page.image = some (target, depth) → Silent m target.title

namespace Lands

/-- More markup that leads on from where the page ends. -/
theorem add {markup : String} (lands : Lands m page depth)
    (leads : Leads m.opening (spotOf depth) markup (spotOf depth)) : Lands m (page.add markup) depth where
  markup := by
    rw [add_markup]
    exact lands.markup.append leads
  image := by
    rw [add_image]
    exact lands.image
  title target depth inImage := lands.title target depth (add_image page markup ▸ inImage)

theorem addFixed (lands : Lands m page none) (markup : String)
    (plain : markup.toList.all (fun c => !Source.isPrivateUse c) = true)
    (ends : (Spot.text 0).after markup.toList = .text 0) : Lands m (page.add markup) none :=
  lands.add (.fixed markup plain ends)

theorem addOnLine {markup : String} (lands : Lands m page none)
    (leads : Leads m.opening (.text 0) markup (.text 0)) : Lands m (page.addOnLine markup) none := by
  unfold Page.addOnLine
  split
  · exact lands.add leads
  · exact lands.add ((Leads.fixed "\n" (by decide) (by decide)).append leads)

theorem of_same {page' : Page} (lands : Lands m page depth) (markup : page'.markup = page.markup)
    (image : page'.image = page.image) : Lands m page' depth where
  markup := markup ▸ lands.markup
  image := image ▸ lands.image
  title target depth inImage := lands.title target depth (image ▸ inImage)

/-! ## Tags -/

theorem leads_titleMarkup {target : LinkTarget} (silent : Silent m target.title) :
    Leads m.opening (.value 0) (titleMarkup target) (.value 0) := by
  unfold titleMarkup
  split
  · exact .empty _
  · exact (Leads.fixed "\" title=\"" (by decide) (by decide)).append (.quoted silent)

theorem leads_headingMarkup {level : Nat} {id : Option String} (silent : ∀ text ∈ id, Silent m text) :
    Leads m.opening (.text 0) (headingMarkup level id) (.text 0) := by
  have name : Leads m.opening (.text 0) ("<h" ++ toString level)
      ⟨.name false ((toString level).toList.reverse ++ ['h']), 0⟩ :=
    (Leads.fixed "<h" (by decide) (by decide)).append (.level ['h'] level)
  have other := Leads.isCodeName_heading (toString level).toList.reverse
  unfold headingMarkup
  cases id with
  | none =>
    rw [Option.elim_none, String.append_empty]
    exact name.append (.endTag other)
  | some text =>
    rw [Option.elim_some]
    exact (name.append (((Leads.idStart other).append (.quoted (silent text rfl))).append
      (.fixed "\"" (by decide) rfl))).append (.fixed ">" (by decide) rfl)

theorem leads_headingEnd (level : Nat) : Leads m.opening (.text 0) ("</h" ++ toString level ++ ">\n") (.text 0) := by
  have name : Leads m.opening (.text 0) ("</h" ++ toString level)
      ⟨.name true ((toString level).toList.reverse ++ ['h']), 0⟩ :=
    (Leads.fixed "</h" (by decide) (by decide)).append (.level ['h'] level)
  have ends : Leads m.opening ⟨.name true ((toString level).toList.reverse ++ ['h']), 0⟩ (">" ++ "\n") (.text 0) :=
    (Leads.endTag (Leads.isCodeName_heading _)).append (.fixed "\n" (by decide) rfl)
  exact name.append ends

theorem leads_cellStart (page : Page) (alignment : Option Alignment) :
    Leads m.opening (.text 0) ("<" ++ page.cellName ++ alignmentMarkup alignment) (.text 0) := by
  unfold cellName alignmentMarkup
  split <;> split <;> exact .fixed _ (by decide) (by decide)

theorem leads_cellEnd (page : Page) : Leads m.opening (.text 0) ("</" ++ page.cellName ++ ">") (.text 0) := by
  unfold cellName
  split <;> exact .fixed _ (by decide) (by decide)

theorem openTag {tag : Tag} (lands : Lands m page none) (settled : (Event.start tag).Settled m)
    (placed : (Event.start tag).Placed m none) :
    Lands m (page.openTag tag) ((Event.start tag).imageAfter none) := by
  cases tag with
  | paragraph => exact lands.addOnLine (.fixed _ (by decide) (by decide))
  | heading level id => exact lands.addOnLine (leads_headingMarkup settled)
  | blockQuote => exact lands.addOnLine (.fixed _ (by decide) (by decide))
  | codeBlock => exact placed.elim
  | list start =>
    cases start with
    | none => exact lands.addOnLine (.fixed _ (by decide) (by decide))
    | some start =>
      refine lands.addOnLine ?_
      split
      · exact .fixed _ (by decide) (by decide)
      · have value : Leads m.opening (.text 0) "<ol start=\"" (.value 0) := .fixed _ (by decide) (by decide)
        exact (value.append (.number start)).append (.fixed "\">\n" (by decide) (by decide))
  | item => exact lands.addOnLine (.fixed _ (by decide) (by decide))
  | footnoteDefinition => exact lands
  | table => exact (lands.addFixed "<table>" (by decide) (by decide)).of_same rfl rfl
  | tableHead => exact (lands.addFixed "<thead><tr>" (by decide) (by decide)).of_same rfl rfl
  | tableRow => exact (lands.addFixed "<tr>" (by decide) (by decide)).of_same rfl rfl
  | tableCell => exact lands.add (leads_cellStart page _)
  | emphasis => exact lands.addFixed _ (by decide) (by decide)
  | strong => exact lands.addFixed _ (by decide) (by decide)
  | strikethrough => exact lands.addFixed _ (by decide) (by decide)
  | link mailbox target =>
    have start : Leads m.opening (.text 0) ("<a href=\"" ++ if mailbox then "mailto:" else "") (.value 0) := by
      split <;> exact .fixed _ (by decide) (by decide)
    exact lands.add (((start.append (.address _)).append (leads_titleMarkup settled)).append
      (.fixed "\">" (by decide) (by decide)))
  | image target =>
    have source : Leads m.opening (.text 0) "<img src=\"" (.value 0) := .fixed _ (by decide) (by decide)
    have tag : Leads m.opening (.text 0) ("<img src=\"" ++ Markdown.escapeAddress target.destination ++ "\" alt=\"")
        (.value 0) :=
      (source.append (.address _)).append (.fixed "\" alt=\"" (by decide) (by decide))
    refine ⟨?_, rfl, fun other _ same => ?_⟩
    · exact (add_markup page _).symm ▸ lands.markup.append tag
    · obtain ⟨rfl, -⟩ := Prod.mk.inj (Option.some.inj same)
      exact settled

theorem closeTag {tag : Tag} (lands : Lands m page none) (placed : (Event.stop tag).Placed m none) :
    Lands m (page.closeTag tag) none := by
  cases tag with
  | heading level id => exact lands.add (leads_headingEnd level)
  | codeBlock => exact placed.elim
  | list start => cases start <;> exact lands.addFixed _ (by decide) (by decide)
  | footnoteDefinition => exact lands
  | tableHead => exact (lands.addFixed "</tr></thead><tbody>\n" (by decide) (by decide)).of_same rfl rfl
  | tableCell => exact (lands.add (leads_cellEnd page)).of_same rfl rfl
  | image => exact lands
  | _ => exact lands.addFixed _ (by decide) (by decide)

/-! ## Events -/

theorem addToImage {target : LinkTarget} {depth : Nat} (lands : Lands m page (some depth))
    (inImage : page.image = some (target, depth)) (settled : event.Settled m)
    (placed : event.Placed m (some depth)) :
    Lands m (page.addToImage target depth event) (event.imageAfter (some depth)) := by
  have title := lands.title target depth inImage
  have nested : ∀ depth', Lands m { page with image := some (target, depth') } (some depth') := fun depth' =>
    ⟨lands.markup, rfl, fun other _ same => by
      obtain ⟨rfl, -⟩ := Prod.mk.inj (Option.some.inj same)
      exact title⟩
  have space : Leads m.opening (.value 0) " " (.value 0) := .fixed _ (by decide) (by decide)
  cases event with
  | start => exact nested (depth + 1)
  | stop =>
    cases depth with
    | zero =>
      have ends : Leads m.opening (.value 0) (titleMarkup target ++ "\" />") (.text 0) :=
        (leads_titleMarkup title).append (.fixed _ (by decide) (by decide))
      simp only [Page.addToImage, beq_self_eq_true, if_true]
      refine ⟨?_, ?_, fun other _ same => ?_⟩
      · rw [add_markup]
        exact lands.markup.append ends
      · rw [add_image]
        rfl
      · rw [add_image] at same
        cases same
    | succ depth => exact nested depth
  | text text => exact lands.add (.quoted placed)
  | code code => exact lands.add (.quoted settled)
  | html => exact lands
  | inlineHtml markup => exact lands.add (.quoted placed)
  | footnoteReference => exact lands
  | taskMarker isChecked =>
    refine lands.add (show Leads m.opening (.value 0) _ (.value 0) from ?_)
    split <;> exact .fixed _ (by decide) (by decide)
  | softBreak => exact lands.add space
  | hardBreak => exact lands.add space
  | rule => exact lands.add space

theorem step (lands : Lands m page depth) (settled : event.Settled m) (placed : event.Placed m depth) :
    Lands m (page.step event) (event.imageAfter depth) := by
  have image := lands.image
  cases inImage : page.image with
  | some open' =>
    unfold Page.step
    rw [inImage] at image ⊢
    subst image
    exact lands.addToImage inImage settled placed
  | none =>
    unfold Page.step
    rw [inImage] at image ⊢
    subst image
    cases event with
    | start tag => exact lands.openTag settled placed
    | stop tag => exact lands.closeTag placed
    | text text => exact lands.add (.escaped text)
    | code code =>
      have start : Leads m.opening (.text 0) "<code>" (.text 1) := .fixed _ (by decide) (by decide)
      exact lands.add ((start.append (.escapedInCode settled)).append
        (.fixed "</code>" (by decide) (by decide)))
    | html markup => exact lands.add placed
    | inlineHtml markup => exact lands.add placed
    | softBreak => exact lands.addFixed _ (by decide) (by decide)
    | hardBreak => exact lands.addFixed _ (by decide) (by decide)
    | rule => exact lands.addOnLine (.fixed _ (by decide) (by decide))
    | footnoteReference label => exact lands
    | taskMarker isChecked =>
      refine lands.add ?_
      split <;> exact .fixed _ (by decide) (by decide)

theorem foldl (lands : Lands m page depth) (settled : ∀ event ∈ events, event.Settled m)
    (placed : PlacedFrom m depth events) :
    Lands m (events.foldl Page.step page) (imageAfterAll depth events) := by
  induction events generalizing page depth with
  | nil => exact lands
  | cons event rest ih =>
    obtain ⟨first, others⟩ := List.forall_mem_cons.mp settled
    exact ih (lands.step first placed.1) others placed.2

end Lands
end Page

/-- Every opening sentinel in the markup of placed events stands where markup can. -/
theorem leads_write (settled : ∀ event ∈ events, event.Settled m) (placed : PlacedFrom m none events) :
    Leads m.opening (.text 0) (write events) (Page.spotOf (imageAfterAll none events)) := by
  have start : Page.Lands m .empty none := ⟨.empty _, rfl, fun _ _ absent => by cases absent⟩
  exact (start.foldl settled placed).markup

end Galley.Markdown
