import Galley.Html.Names
import Galley.Proofs.Html.Parts
import Galley.Proofs.Session.Rendered

/-!
# The ids in a page

A link leads to the tag with its id, so a page should give no id twice. The ids are read off the parts of the markup.

* `Anchor` — an id, and whether a heading carries it;
* `ids`, `headingIds`, `otherIds` — the ids of a page, those of its headings and the others;
* `Carries` — markup between texts, with the ids of its tags in order;
* `Carries.lastAttribute` — a tag whose last attribute is written escaped.
-/

namespace Galley.Html

/-- An id of a page. -/
structure Anchor where
  /-- Whether a heading carries it. -/
  onHeading : Bool
  /-- The id. -/
  id : String
  deriving Repr, DecidableEq

/-- The ids that a tag gives. -/
def Part.anchors : Part → List Anchor
  | start name attributes =>
    (attributes.filter fun entry => entry.1 == "id").map fun entry => ⟨headingNames.contains name, entry.2⟩
  | _ => []

/-- The ids of a page in their order. -/
def anchorsOf (parts : List Part) : List Anchor := parts.flatMap Part.anchors

/-- The ids of a page. -/
def ids (parts : List Part) : List String := (anchorsOf parts).map Anchor.id

/-- The ids of headings. -/
def headingIds (parts : List Part) : List String := ((anchorsOf parts).filter Anchor.onHeading).map Anchor.id

/-- All other ids. -/
def otherIds (parts : List Part) : List String :=
  ((anchorsOf parts).filter fun anchor => !anchor.onHeading).map Anchor.id

variable {a b markup : String} {parts : List Part} {anchors first others : List Anchor}

theorem anchorsOf_append (front back : List Part) : anchorsOf (front ++ back) = anchorsOf front ++ anchorsOf back :=
  List.flatMap_append

theorem anchorsOf_ofText (shown : String) : anchorsOf (Part.ofText shown) = [] := by
  unfold Part.ofText
  split <;> rfl

/-- What is read behind a text does not depend on the text. -/
theorem Cursor.after?_text_alike {cs : List Char} {stop : Cursor} {reversed : List Char}
    (reads : (text reversed).after? cs = some (stop, parts)) (other : List Char) :
    ∃ stop' parts', (text other).after? cs = some (stop', parts') ∧ anchorsOf parts' = anchorsOf parts ∧
      (stop' = stop ∨ stop.isTag = false ∧ stop'.isTag = false) := by
  induction cs generalizing reversed other with
  | nil =>
    obtain ⟨rfl, rfl⟩ := Prod.mk.inj (Option.some.inj reads)
    exact ⟨_, _, rfl, rfl, .inr ⟨rfl, rfl⟩⟩
  | cons c rest ih =>
    obtain ⟨next, own, later, goes, goesOn, rfl⟩ := after?_cons_eq_some.mp reads
    rw [next?] at goes
    split_ifs at goes with opens closes <;> obtain ⟨rfl, rfl⟩ := Prod.mk.inj (Option.some.inj goes)
    · -- the text ends here, and both are read from the same bracket on
      have goes' : (text other).next? c = some (bracket, Part.ofText (decodedReversed other)) := if_pos opens
      refine ⟨stop, _, after?_cons_eq_some.mpr ⟨_, _, _, goes', goesOn, rfl⟩, ?_, .inl rfl⟩
      rw [anchorsOf_append, anchorsOf_append, anchorsOf_ofText, anchorsOf_ofText]
    · -- the text goes on, and so does the other one by the same character
      obtain ⟨stop', parts', reads', same, ends⟩ := ih goesOn (c :: other)
      have goes' : (text other).next? c = some (text (c :: other), []) := by
        rw [next?, if_neg opens, if_neg closes]
      exact ⟨stop', parts', after?_cons_eq_some.mpr ⟨_, _, _, goes', reads', rfl⟩, same, ends⟩

/-- Markup between texts whose tags give some ids. -/
def Carries (markup : String) (anchors : List Anchor) : Prop :=
  ∀ reversed, ∃ rest parts, Takes (.text reversed) markup (.text rest) parts ∧ anchorsOf parts = anchors

namespace Carries

/-- It is enough to read it alone. -/
theorem ofTakes {reversed rest : List Char} (takes : Takes (.text reversed) markup (.text rest) parts)
    (same : anchorsOf parts = anchors) : Carries markup anchors := by
  intro other
  obtain ⟨stop, parts', reads, same', rfl | ⟨-, ends⟩⟩ := Cursor.after?_text_alike takes.reads other
  · exact ⟨_, parts', ⟨reads⟩, same'.trans same⟩
  · cases stop with
    | text rest' => exact ⟨rest', parts', ⟨reads⟩, same'.trans same⟩
    | _ => cases ends

theorem ofMarkup (read : (Part.ofMarkup? markup).map anchorsOf = some anchors) : Carries markup anchors := by
  obtain ⟨parts, whole, same⟩ := Option.map_eq_some_iff.mp read
  unfold Part.ofMarkup? at whole
  split at whole
  next reversed inner reads =>
    obtain rfl := Option.some.inj whole
    rw [anchorsOf_append, anchorsOf_ofText, List.append_nil] at same
    exact .ofTakes ⟨reads⟩ same
  next => cases whole

theorem ofMarkup?_eq (carries : Carries markup anchors) :
    ∃ parts, Part.ofMarkup? markup = some parts ∧ anchorsOf parts = anchors := by
  obtain ⟨rest, parts, takes, same⟩ := carries []
  refine ⟨_, takes.consistsOf.read, ?_⟩
  rw [anchorsOf_append, anchorsOf_ofText, List.append_nil, same]

theorem empty : Carries "" [] := fun reversed => ⟨reversed, [], .empty _, rfl⟩

theorem append (left : Carries a first) (right : Carries b others) : Carries (a ++ b) (first ++ others) := by
  intro reversed
  obtain ⟨middle, parts, takes, same⟩ := left reversed
  obtain ⟨rest, parts', takes', same'⟩ := right middle
  exact ⟨rest, parts ++ parts', takes.append takes', by rw [anchorsOf_append, same, same']⟩

/-- Without brackets there are no tags. -/
theorem ofText (opens : '<' ∉ a.toList) (closes : '>' ∉ a.toList) : Carries a [] :=
  fun _ => ⟨_, [], .ofText opens closes, rfl⟩

theorem shown (text : String) : Carries (Text.escapeText text) [] := fun reversed => ⟨_, [], .shown reversed text, rfl⟩

/-- A tag whose last attribute says what is written escaped, behind what its value begins with. -/
theorem lastAttribute {opening front name key : String} {attributes : List (String × String)}
    (opens : Takes (.text []) opening (.value name attributes key front.toList.reverse) [])
    (plain : '&' ∉ front.toList) (text : String) :
    Carries (opening ++ (Text.escapeAttribute text ++ "\">"))
      (Part.start name (attributes ++ [(key, front ++ text)])).anchors :=
  .ofTakes (opens.append (.lastAttribute name attributes key front plain text)) (List.append_nil _)

end Carries

/-- A page gives no id twice exactly if no heading has the id of something else, and neither headings nor other tags give
one twice. -/
theorem nodup_ids_iff (parts : List Part) : (ids parts).Nodup ↔
    (headingIds parts).Nodup ∧ (otherIds parts).Nodup ∧ ∀ id ∈ headingIds parts, id ∉ otherIds parts := by
  have apart := (List.filter_append_perm Anchor.onHeading (anchorsOf parts)).map Anchor.id
  rw [List.map_append] at apart
  rw [ids, ← apart.nodup_iff, List.nodup_append]
  refine and_congr_right fun _ => and_congr_right fun _ => ?_
  exact ⟨fun differ id onHeading other => differ id onHeading id other rfl,
    fun differ id onHeading other member same => differ id onHeading (same ▸ member)⟩

end Galley.Html
