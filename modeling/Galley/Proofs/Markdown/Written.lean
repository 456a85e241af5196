import Galley.Proofs.Markdown.Silent

/-!
# Tokens in written markup

Written markup holds the tokens of the texts and of the markup among the events, and no other ones.

* `Event.Whole`, `Event.load` — the tokens of an event that was parsed;
* `Event.Settled` — an event whose tokens are whole and stand in text or markup;
* `Event.mass` — how often a token stands in an event;
* `Page.Holds` — which tokens the markup of a page holds;
* `bears_write` — the markup of some events holds their tokens.
-/

namespace Galley.Markdown

open Galley.Source (Marking Silent silent_of_plain silent_empty silent_toString silent_escapeAddress
  silent_escapeAttribute silent_escapeText Bears bears_escapeText bears_escapeAttribute)

variable {m : Marking} {k : Nat} {n : Nat → Nat} {page : Page} {event : Event}

/-- The tokens in the texts of an event are whole. -/
def Event.Whole (m : Marking) : Event → Prop
  | .text t => m.Tokened t.toList
  | .code t => m.Tokened t.toList
  | .html markup => m.Tokened markup.toList
  | .inlineHtml markup => m.Tokened markup.toList
  | .footnoteReference label => m.Tokened label.toList
  | .start (.codeBlock info) => m.Tokened (info.getD "").toList
  | .start (.heading _ id) => ∀ name ∈ id, Silent m name
  | .start (.link _ target) => m.Tokened target.destination.toList ∧ m.Tokened target.title.toList
  | .start (.image target) => m.Tokened target.destination.toList ∧ m.Tokened target.title.toList
  | _ => True

/-- How often the token with a number stands in the texts of an event. Code and targets do not count, because
    they are written without tokens. -/
def Event.load (m : Marking) (k : Nat) : Event → Nat
  | .text t => m.occurrences k t.toList
  | .html markup => m.occurrences k markup.toList
  | .inlineHtml markup => m.occurrences k markup.toList
  | .footnoteReference label => m.occurrences k label.toList
  | .start (.codeBlock info) => m.occurrences k (info.getD "").toList
  | _ => 0

/-- The tokens of an event are whole, and stand in text and markup only. -/
def Event.Settled (m : Marking) : Event → Prop
  | .text t => m.Tokened t.toList
  | .html markup => m.Tokened markup.toList
  | .inlineHtml markup => m.Tokened markup.toList
  | .code t => Silent m t
  | .start (.heading _ id) => ∀ name ∈ id, Silent m name
  | .start (.link _ target) => Silent m target.title
  | .start (.image target) => Silent m target.title
  | _ => True

/-- How often the token with a number stands in an event. -/
def Event.mass (m : Marking) (k : Nat) : Event → Nat
  | .text t => m.occurrences k t.toList
  | .html markup => m.occurrences k markup.toList
  | .inlineHtml markup => m.occurrences k markup.toList
  | _ => 0

namespace Page

/-- A page has whole tokens, each at most as often as `n` says, and none in the title that is still to be
    written. -/
structure Holds (m : Marking) (n : Nat → Nat) (page : Page) : Prop where
  /-- The markup has such tokens. -/
  markup : Bears m n page.markup
  /-- The title of an open image holds none. -/
  title : ∀ target depth, page.image = some (target, depth) → Silent m target.title

theorem add_markup (page : Page) (markup : String) : (page.add markup).markup = page.markup ++ markup := by
  unfold add
  split
  next isEmpty => rw [String.isEmpty_iff.mp isEmpty, String.append_empty]
  next => rfl

theorem add_image (page : Page) (markup : String) : (page.add markup).image = page.image := by
  unfold add
  split <;> rfl

namespace Holds

/-- Only the markup and the open image count. -/
theorem of_same {page' : Page} (holds : Holds m n page) (markup : page'.markup = page.markup)
    (image : page'.image = page.image) : Holds m n page' where
  markup := markup ▸ holds.markup
  title target depth inImage := holds.title target depth (image ▸ inImage)

theorem withImage {image : Option (LinkTarget × Nat)} (holds : Holds m n page)
    (title : ∀ target depth, image = some (target, depth) → Silent m target.title) :
    Holds m n { page with image } :=
  ⟨holds.markup, title⟩

theorem mono {p : Nat → Nat} (holds : Holds m n page) (le : ∀ k, n k ≤ p k) : Holds m p page :=
  ⟨holds.markup.mono le, holds.title⟩

theorem add {p : Nat → Nat} {markup : String} (holds : Holds m n page) (bears : Bears m p markup) :
    Holds m (fun k => n k + p k) (page.add markup) where
  markup := by
    rw [add_markup]
    exact holds.markup.append bears
  title target depth inImage := holds.title target depth (add_image page markup ▸ inImage)

theorem addSilent {markup : String} (holds : Holds m n page) (silent : Silent m markup) :
    Holds m n (page.add markup) :=
  holds.add (p := fun _ => 0) (.of_silent silent)

theorem addPlain (holds : Holds m n page) (markup : String)
    (plain : markup.toList.all (fun c => !Source.isPrivateUse c) = true) : Holds m n (page.add markup) :=
  holds.addSilent (silent_of_plain plain)

theorem addOnLine {markup : String} (holds : Holds m n page) (silent : Silent m markup) :
    Holds m n (page.addOnLine markup) := by
  unfold Page.addOnLine
  split
  · exact holds.addSilent silent
  · exact holds.addSilent ((silent_of_plain (by decide)).append silent)

end Holds

/-! ## Tags -/

theorem silent_titleMarkup {target : LinkTarget} (silent : Silent m target.title) :
    Silent m (titleMarkup target) := by
  unfold titleMarkup
  split
  · exact silent_empty
  · exact (silent_of_plain (by decide)).append (silent_escapeAttribute silent)

theorem silent_headingMarkup {level : Nat} {id : Option String} (silent : ∀ text ∈ id, Silent m text) :
    Silent m (headingMarkup level id) := by
  unfold headingMarkup
  refine (((silent_of_plain (by decide)).append (silent_toString level)).append ?_).append
    (silent_of_plain (by decide))
  cases id with
  | none => exact silent_empty
  | some text =>
    exact ((silent_of_plain (by decide)).append (silent_escapeAttribute (silent text rfl))).append
      (silent_of_plain (by decide))

theorem silent_alignmentMarkup (alignment : Option Alignment) : Silent m (alignmentMarkup alignment) := by
  unfold alignmentMarkup
  split <;> exact silent_of_plain (by decide)

theorem silent_cellName (page : Page) : Silent m page.cellName := by
  unfold cellName
  split <;> exact silent_of_plain (by decide)

theorem Holds.openTag {tag : Tag} (holds : Holds m n page) (settled : (Event.start tag).Settled m) :
    Holds m n (page.openTag tag) := by
  cases tag with
  | paragraph => exact holds.addOnLine (silent_of_plain (by decide))
  | heading level id => exact holds.addOnLine (silent_headingMarkup settled)
  | blockQuote => exact holds.addOnLine (silent_of_plain (by decide))
  | codeBlock => exact holds.addOnLine (silent_of_plain (by decide))
  | list start =>
    cases start with
    | none => exact holds.addOnLine (silent_of_plain (by decide))
    | some start =>
      refine holds.addOnLine ?_
      split
      · exact silent_of_plain (by decide)
      · exact ((silent_of_plain (by decide)).append (silent_toString start)).append
          (silent_of_plain (by decide))
  | item => exact holds.addOnLine (silent_of_plain (by decide))
  | footnoteDefinition => exact holds
  | table => exact (holds.addPlain "<table>" (by decide)).of_same rfl rfl
  | tableHead => exact (holds.addPlain "<thead><tr>" (by decide)).of_same rfl rfl
  | tableRow => exact (holds.addPlain "<tr>" (by decide)).of_same rfl rfl
  | tableCell =>
    exact holds.addSilent (((silent_of_plain (by decide)).append (silent_cellName page)).append
      (silent_alignmentMarkup _))
  | emphasis => exact holds.addPlain _ (by decide)
  | strong => exact holds.addPlain _ (by decide)
  | strikethrough => exact holds.addPlain _ (by decide)
  | link mailbox target =>
    refine holds.addSilent (((((silent_of_plain (by decide)).append ?_).append
      (silent_escapeAddress _)).append (silent_titleMarkup settled)).append (silent_of_plain (by decide)))
    split <;> exact silent_of_plain (by decide)
  | image target =>
    refine Holds.withImage (holds.addSilent (((silent_of_plain (by decide)).append
      (silent_escapeAddress _)).append (silent_of_plain (by decide)))) fun other depth same => ?_
    obtain ⟨rfl, -⟩ := Prod.mk.inj (Option.some.inj same)
    exact settled

theorem Holds.closeTag {tag : Tag} (holds : Holds m n page) : Holds m n (page.closeTag tag) := by
  cases tag with
  | heading level id =>
    exact holds.addSilent (((silent_of_plain (by decide)).append (silent_toString level)).append
      (silent_of_plain (by decide)))
  | list start => cases start <;> exact holds.addPlain _ (by decide)
  | footnoteDefinition => exact holds
  | tableHead => exact (holds.addPlain "</tr></thead><tbody>\n" (by decide)).of_same rfl rfl
  | tableCell =>
    have silent : Silent m ("</" ++ page.cellName ++ ">") :=
      ((silent_of_plain (by decide)).append (silent_cellName page)).append (silent_of_plain (by decide))
    exact (holds.addSilent silent).of_same rfl rfl
  | image => exact holds
  | _ => exact holds.addPlain _ (by decide)

/-! ## Events -/

theorem Holds.addToImage {target : LinkTarget} {depth : Nat} (holds : Holds m n page)
    (inImage : page.image = some (target, depth)) (settled : event.Settled m) :
    Holds m (fun k => n k + event.mass m k) (page.addToImage target depth event) := by
  have title := holds.title target depth inImage
  have nested : ∀ depth', Holds m n { page with image := some (target, depth') } := fun depth' =>
    holds.withImage fun other _ same => by
      obtain ⟨rfl, -⟩ := Prod.mk.inj (Option.some.inj same)
      exact title
  cases event with
  | start => exact nested (depth + 1)
  | stop =>
    by_cases outermost : depth = 0
    · simp only [Page.addToImage, outermost, beq_self_eq_true, if_true]
      have closed : Holds m n { page with image := none } :=
        holds.withImage fun _ _ absent => by cases absent
      exact closed.addSilent ((silent_titleMarkup title).append (silent_of_plain (by decide)))
    · simp only [Page.addToImage, beq_iff_eq, outermost, if_false]
      exact nested (depth - 1)
  | text text => exact holds.add (bears_escapeAttribute (.own settled))
  | code code => exact holds.addSilent (silent_escapeAttribute settled)
  | html => exact holds.mono fun k => Nat.le_add_right _ _
  | inlineHtml markup => exact holds.add (bears_escapeAttribute (.own settled))
  | footnoteReference => exact holds
  | taskMarker isChecked =>
    refine holds.addSilent ?_
    split <;> exact silent_of_plain (by decide)
  | _ => exact holds.addPlain _ (by decide)

theorem Holds.step (holds : Holds m n page) (settled : event.Settled m) :
    Holds m (fun k => n k + event.mass m k) (page.step event) := by
  cases inImage : page.image with
  | some image =>
    unfold Page.step
    rw [inImage]
    exact holds.addToImage inImage settled
  | none =>
    unfold Page.step
    rw [inImage]
    cases event with
    | start tag => exact holds.openTag settled
    | stop tag => exact holds.closeTag
    | text text => exact holds.add (bears_escapeText (.own settled))
    | code code =>
      exact holds.addSilent (((silent_of_plain (by decide)).append (silent_escapeText settled)).append
        (silent_of_plain (by decide)))
    | html markup => exact holds.add (.own settled)
    | inlineHtml markup => exact holds.add (.own settled)
    | softBreak => exact holds.addPlain _ (by decide)
    | hardBreak => exact holds.addPlain _ (by decide)
    | rule => exact holds.addOnLine (silent_of_plain (by decide))
    | footnoteReference label => exact holds
    | taskMarker isChecked =>
      refine holds.addSilent ?_
      split <;> exact silent_of_plain (by decide)

theorem Holds.foldl {events : List Event} (holds : Holds m n page)
    (settled : ∀ event ∈ events, event.Settled m) :
    Holds m (fun k => n k + (events.map (Event.mass m k)).sum) (events.foldl Page.step page) := by
  induction events generalizing page n with
  | nil => exact holds
  | cons event rest ih =>
    have more := ih (holds.step (settled event List.mem_cons_self)) fun other member =>
      settled other (List.mem_cons_of_mem _ member)
    simpa only [List.map_cons, List.sum_cons, Nat.add_assoc, List.foldl_cons] using more

end Page

/-- Markup has the tokens of its events, and they are whole. -/
theorem bears_write {events : List Event} (settled : ∀ event ∈ events, event.Settled m) :
    Bears m (fun k => (events.map (Event.mass m k)).sum) (write events) := by
  have start : Page.Holds m (fun _ => 0) .empty := ⟨.of_silent silent_empty, fun _ _ absent => by
    cases absent⟩
  exact (start.foldl settled).markup.mono fun k => Nat.le_of_eq (Nat.zero_add _)

end Galley.Markdown
