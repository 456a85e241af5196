import Galley.Markdown.Document
import Mathlib

/-!
# Nested events

The tags among the events of a document are closed in the order in which they were opened, the last one first.
Within an image stand only pieces of a line, and within code only text.

* `Nested` — events that close the tags that are open, and open others only where these may stand;
* `Nests` — events that can stand in front of nested ones;
* `Node.faults`, `nests_eventsOf` — pieces of a line;
* `nested_mergeText` — joining texts.
-/

namespace Galley.Markdown

variable {stack : List Tag} {events front back : List Event} {inside : List Tag → Prop}

/-- Whether a tag is one of a line. -/
def Tag.isInline : Tag → Bool
  | .emphasis => true
  | .strong => true
  | .strikethrough => true
  | .link _ _ => true
  | .image _ => true
  | _ => false

/-- Whether an event stands in a line and has no inside. -/
def Event.isLeaf : Event → Bool
  | .text _ => true
  | .code _ => true
  | .inlineHtml _ => true
  | .softBreak => true
  | .hardBreak => true
  | .footnoteReference _ => true
  | _ => false

/-- Whether an event stands in a line. -/
def Event.isInline : Event → Bool
  | .start tag => tag.isInline
  | .stop tag => tag.isInline
  | event => event.isLeaf

/-- Whether a tag is an image. -/
def Tag.isImage : Tag → Bool
  | .image _ => true
  | _ => false

/-- Whether a tag is a block of code. -/
def Tag.isCode : Tag → Bool
  | .codeBlock _ => true
  | _ => false

/-- Whether an image is open. -/
def inImage (stack : List Tag) : Bool := stack.any Tag.isImage

/-- Whether code is open. -/
def inCode (stack : List Tag) : Bool := stack.any Tag.isCode

/-- An event may stand within the tags that are open. -/
def Event.AllowedIn (stack : List Tag) (event : Event) : Prop :=
  (inImage stack = true → event.isInline = true) ∧ (inCode stack = true → ∃ t, event = .text t)

/-- Events that close all tags that are open, and open others only where these may stand. -/
def Nested : List Tag → List Event → Prop
  | stack, [] => stack = []
  | stack, .start tag :: rest => (Event.start tag).AllowedIn stack ∧ Nested (tag :: stack) rest
  | stack, .stop tag :: rest => ∃ outer, stack = tag :: outer ∧ Nested outer rest
  | stack, event :: rest => event.AllowedIn stack ∧ Nested stack rest

/-- Events that can stand in front of nested ones, wherever the tags that are open are of some kind. -/
def Nests (inside : List Tag → Prop) (events : List Event) : Prop :=
  ∀ stack rest, inside stack → Nested stack rest → Nested stack (events ++ rest)

/-- Within a line code is not open. -/
def InLine (stack : List Tag) : Prop := inCode stack = false

/-- Between blocks neither an image nor code is open. -/
def BetweenBlocks (stack : List Tag) : Prop := inImage stack = false ∧ inCode stack = false

namespace Nests

theorem nil : Nests inside [] := fun _ _ _ nested => nested

theorem append (first : Nests inside front) (second : Nests inside back) : Nests inside (front ++ back) := by
  intro stack rest within nested
  rw [List.append_assoc]
  exact first stack _ within (second stack rest within nested)

theorem flatMap {α : Type} {items : List α} {events : α → List Event}
    (all : ∀ item ∈ items, Nests inside (events item)) : Nests inside (items.flatMap events) := by
  induction items with
  | nil => exact nil
  | cons item rest ih =>
    obtain ⟨first, others⟩ := List.forall_mem_cons.mp all
    exact first.append (ih others)

theorem mono {outside : List Tag → Prop} (nests : Nests inside events)
    (weaker : ∀ stack, outside stack → inside stack) : Nests outside events :=
  fun stack rest within => nests stack rest (weaker stack within)

/-- An event without an inside. -/
theorem single {event : Event} (allowed : ∀ stack, inside stack → event.AllowedIn stack)
    (noStart : ∀ tag, event ≠ .start tag) (noStop : ∀ tag, event ≠ .stop tag) : Nests inside [event] := by
  intro stack rest within nested
  cases event with
  | start tag => exact absurd rfl (noStart tag)
  | stop tag => exact absurd rfl (noStop tag)
  | _ => exact ⟨allowed stack within, nested⟩

/-- A tag and what stands in it. -/
theorem tagged {tag : Tag} {outside : List Tag → Prop} (nests : Nests inside events)
    (allowed : ∀ stack, outside stack → (Event.start tag).AllowedIn stack)
    (enters : ∀ stack, outside stack → inside (tag :: stack)) : Nests outside (tagged tag events) := by
  intro stack rest within nested
  refine ⟨allowed stack within, ?_⟩
  change Nested (tag :: stack) ((events ++ [.stop tag]) ++ rest)
  rw [List.append_assoc]
  exact nests (tag :: stack) _ (enters stack within) ⟨stack, rfl, nested⟩

end Nests

/-! ## Pieces of a line -/

mutual

/-- How many events of a piece do not stand in a line, or open a tag that they do not close. -/
def Node.faults : Node → Nat
  | .leaf event => if event.isLeaf then 0 else 1
  | .span tag content => (if tag.isInline then 0 else 1) + Node.faultsOf content

/-- The same of some pieces. -/
def Node.faultsOf : List Node → Nat
  | [] => 0
  | node :: rest => node.faults + Node.faultsOf rest

end

theorem allowedIn_of_isInline {event : Event} (isInline : event.isInline = true) (within : InLine stack) :
    event.AllowedIn stack :=
  ⟨fun _ => isInline, fun code => by rw [show inCode stack = false from within] at code; cases code⟩

mutual

/-- A piece of a line nests. -/
theorem nests_events : (node : Node) → node.faults = 0 → Nests InLine node.events
  | .leaf event, faultless => by
    have isLeaf : event.isLeaf = true := by
      unfold Node.faults at faultless
      split at faultless
      · assumption
      · cases faultless
    refine .single (fun stack within => allowedIn_of_isInline ?_ within) (fun tag same => ?_) (fun tag same => ?_)
    · cases event <;> first | exact isLeaf | cases isLeaf
    · rw [same] at isLeaf
      cases isLeaf
    · rw [same] at isLeaf
      cases isLeaf
  | .span tag content, faultless => by
    have isInline : tag.isInline = true ∧ Node.faultsOf content = 0 := by
      unfold Node.faults at faultless
      split at faultless
      · exact ⟨by assumption, by omega⟩
      · omega
    refine (nests_eventsOf content isInline.2).tagged
      (fun stack within => allowedIn_of_isInline isInline.1 within) fun stack within => ?_
    have inside : inCode (tag :: stack) = inCode stack := by
      cases tag <;> first | rfl | cases isInline.1
    exact inside.trans within

/-- Pieces of a line nest. -/
theorem nests_eventsOf : (nodes : List Node) → Node.faultsOf nodes = 0 → Nests InLine (Node.eventsOf nodes)
  | [], _ => .nil
  | node :: rest, faultless => by
    unfold Node.faultsOf at faultless
    exact (nests_events node (by omega)).append (nests_eventsOf rest (by omega))

end

/-! ## Joined texts -/

theorem nested_text {a b : String} {rest : List Event} (nested : Nested stack (.text a :: rest)) :
    Nested stack (.text b :: rest) :=
  ⟨⟨fun _ => rfl, fun _ => ⟨b, rfl⟩⟩, nested.2⟩

theorem nested_mergeText (nested : Nested stack events) : Nested stack (mergeText events) := by
  induction events generalizing stack with
  | nil => exact nested
  | cons event rest ih =>
    have kept : Nested stack (event :: mergeText rest) := by
      cases event with
      | start tag => exact ⟨nested.1, ih nested.2⟩
      | stop tag =>
        obtain ⟨outer, same, inner⟩ := nested
        exact ⟨outer, same, ih inner⟩
      | _ => exact ⟨nested.1, ih nested.2⟩
    change Nested stack (consMerged event (mergeText rest))
    unfold consMerged
    split
    next a b others joined =>
      rw [joined] at kept
      exact nested_text kept.2
    next => exact kept

end Galley.Markdown
