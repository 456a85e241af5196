import Galley.Proofs.Text.Runs
import Galley.Screen

/-!
# The places of the diagrams in a page

A page is read from left to right, and a place is where one begins that is complete.

* `Placeholder.chars`, `Placeholder.IsReadable` — a place as it is written, and
  `ofStart?_eq_some_iff`, what is read as one;
* `pageParts` — a page in its places and the characters that belong to none;
* `Placeholder.Clear` — markup in which no place begins, whatever its end is followed by;
* `Laid` — markup whose places are known in front of anything that may follow.
-/

namespace Galley

namespace Placeholder

open Text (bne_of_not_mem dropStart?_eq_some_iff takeWhile_exact)

variable {place other : Placeholder} {cs after rest : List Char}

/-! ## One place -/

/-- What a place begins with behind its bracket, up to its id. -/
def openingTail : List Char := "div class=\"mermaid\" id=\"".toList

/-- What a place begins with, up to its id. -/
def opening : List Char := '<' :: openingTail

/-- How a place ends. -/
def closing : List Char := "</div>".toList

/-- A place as it is written. -/
def chars (place : Placeholder) : List Char :=
  opening ++ (place.id ++ '\x22' :: '>' :: (place.body ++ closing))

/-- What an id and a text hold if they are read back as they are written. -/
structure IsReadable (place : Placeholder) : Prop where
  /-- The id ends at the first quote. -/
  id : '\x22' ∉ place.id
  /-- The text ends where a tag begins. -/
  body : '<' ∉ place.body

/-- A place is read as it is written, whatever follows. -/
theorem ofStart?_chars (readable : place.IsReadable) (after : List Char) :
    ofStart? (place.chars ++ after) = some (place, after) := by
  have idTaken := takeWhile_exact (bne_of_not_mem readable.id) (bne_self_eq_false '\x22')
    ('>' :: (place.body ++ (closing ++ after)))
  have bodyTaken := takeWhile_exact (bne_of_not_mem readable.body) (bne_self_eq_false '<')
    ("/div>".toList ++ after)
  have written : place.chars ++ after =
      opening ++ (place.id ++ '\x22' :: '>' :: (place.body ++ (closing ++ after))) := by
    simp only [chars, List.append_assoc, List.cons_append]
  have opened : Text.dropStart? "<div class=\"mermaid\" id=\"" (place.chars ++ after) =
      some (place.id ++ '\x22' :: '>' :: (place.body ++ (closing ++ after))) :=
    dropStart?_eq_some_iff.mpr written.symm
  have between : Text.dropStart? "\">" ('\x22' :: '>' :: (place.body ++ (closing ++ after))) =
      some (place.body ++ (closing ++ after)) := dropStart?_eq_some_iff.mpr rfl
  have closed : Text.dropStart? "</div>" (closing ++ after) = some after :=
    dropStart?_eq_some_iff.mpr rfl
  unfold ofStart?
  simp only [opened, Option.bind_eq_bind, Option.bind_some, idTaken, List.drop_left, between]
  rw [show (place.body ++ (closing ++ after)).takeWhile _ = _ from bodyTaken]
  simp only [List.drop_left, closed, Option.bind_some, Option.pure_def]

/-- What is read as a place is written as one. -/
theorem ofStart?_eq_some_iff :
    ofStart? cs = some (place, after) ↔ place.IsReadable ∧ cs = place.chars ++ after := by
  refine ⟨fun read => ?_, fun ⟨readable, same⟩ => same ▸ ofStart?_chars readable after⟩
  simp only [ofStart?, Option.bind_eq_bind, Option.pure_def, Option.bind_eq_some_iff,
    dropStart?_eq_some_iff, Option.some.injEq, Prod.mk.injEq] at read
  obtain ⟨afterOpening, opened, afterId, between, rest, closed, rfl, rfl⟩ := read
  refine ⟨⟨fun member => ?_, fun member => ?_⟩, ?_⟩
  · exact absurd (List.mem_takeWhile_imp member) (by simp)
  · exact absurd (List.mem_takeWhile_imp member) (by simp)
  · have idRead := List.prefix_iff_eq_append.mp (List.takeWhile_prefix (· != '\x22') (l := afterOpening))
    have bodyRead := List.prefix_iff_eq_append.mp (List.takeWhile_prefix (· != '<') (l := afterId))
    rw [← closed] at bodyRead
    rw [← between] at idRead
    generalize afterOpening.takeWhile (· != '\x22') = id at idRead ⊢
    generalize afterId.takeWhile (· != '<') = body at bodyRead ⊢
    subst bodyRead idRead opened
    simp only [chars, List.append_assoc, List.cons_append]
    rfl

theorem length_after_lt (read : ofStart? cs = some (place, after)) : after.length < cs.length := by
  obtain ⟨-, rfl⟩ := ofStart?_eq_some_iff.mp read
  rw [chars, opening, List.length_append, List.cons_append, List.length_cons]
  omega

/-- Two places in front of something are the same if they are written alike. -/
theorem chars_append_inj (readable : place.IsReadable) (otherReadable : other.IsReadable)
    (same : place.chars ++ after = other.chars ++ rest) : place = other ∧ after = rest := by
  have read := ofStart?_chars readable after
  rw [same, ofStart?_chars otherReadable] at read
  simpa [eq_comm] using read

/-! ## Markup without places -/

/-- No place begins in a text that is followed by another one. -/
def Clear (cs after : List Char) : Prop :=
  ∀ rest, rest <:+ cs → rest ≠ [] → ¬ opening <+: rest ++ after

/-- Wherever a bracket stands in a text, the text goes on in another way than a place before it ends. -/
def Apart : List Char → Prop
  | [] => True
  | c :: rest => (c = '<' → ¬ openingTail <+: rest ∧ ¬ rest <+: openingTail) ∧ Apart rest

instance Apart.decidable : (cs : List Char) → Decidable (Apart cs)
  | [] => isTrue trivial
  | c :: rest =>
    have := Apart.decidable rest
    inferInstanceAs (Decidable ((c = '<' → ¬ openingTail <+: rest ∧ ¬ rest <+: openingTail) ∧ Apart rest))

theorem bracket_not_mem_openingTail : '<' ∉ openingTail := by decide

theorem Clear.ofCons {c : Char} (clear : Clear (c :: cs) after) : Clear cs after :=
  fun rest suffix => clear rest (suffix.trans (List.suffix_cons c cs))

theorem Apart.suffix (apart : Apart cs) (suffix : rest <:+ cs) (some : rest ≠ []) :
    ¬ opening <+: rest ∧ ¬ rest <+: opening := by
  induction cs with
  | nil => exact absurd (List.suffix_nil.mp suffix) some
  | cons c cs ih =>
    rcases List.suffix_cons_iff.mp suffix with rfl | later
    · rw [opening, List.cons_prefix_cons, List.cons_prefix_cons]
      exact ⟨fun ⟨bracket, begins⟩ => (apart.1 bracket.symm).1 begins,
        fun ⟨bracket, begins⟩ => (apart.1 bracket).2 begins⟩
    · exact ih apart.2 later

theorem Apart.clear (apart : Apart cs) (after : List Char) : Clear cs after := by
  intro rest suffix some begins
  obtain ⟨longer, shorter⟩ := apart.suffix suffix some
  rcases List.prefix_or_prefix_of_prefix begins (List.prefix_append rest after) with inside | across
  · exact longer inside
  · exact shorter across

theorem Apart.append {other : List Char} (front : Apart cs) (back : Apart other) :
    Apart (cs ++ other) := by
  induction cs with
  | nil => exact back
  | cons c cs ih =>
    refine ⟨fun bracket => ?_, ih front.2⟩
    obtain ⟨longer, shorter⟩ := front.1 bracket
    refine ⟨fun begins => ?_, fun begins => shorter ((List.prefix_append cs other).trans begins)⟩
    rcases List.prefix_or_prefix_of_prefix begins (List.prefix_append cs other) with inside | across
    · exact longer inside
    · exact shorter across

/-- A place begins with a bracket. -/
theorem Apart.ofNotMem (absent : '<' ∉ cs) : Apart cs := by
  induction cs with
  | nil => trivial
  | cons c cs ih =>
    rw [List.mem_cons, not_or] at absent
    exact ⟨fun bracket => absurd bracket.symm absent.1, ih absent.2⟩

theorem Apart.flatMap {α : Type} {f : α → List Char} {list : List α}
    (each : ∀ a ∈ list, Apart (f a)) : Apart (list.flatMap f) := by
  induction list with
  | nil => trivial
  | cons a rest ih =>
    rw [List.forall_mem_cons] at each
    rw [List.flatMap_cons]
    exact each.1.append (ih each.2)

/-- A start of a place that is cut short cannot go on with another bracket. -/
theorem Clear.ofNoInfix (absent : ¬ opening <:+: cs) (bracket : after = [] ∨ ∃ rest, after = '<' :: rest) :
    Clear cs after := by
  intro rest suffix some begins
  rcases List.prefix_or_prefix_of_prefix begins (List.prefix_append rest after) with inside | across
  · exact absent (inside.isInfix.trans suffix.isInfix)
  · obtain ⟨more, same⟩ := across
    rw [← same, List.prefix_append_right_inj] at begins
    rcases bracket with rfl | ⟨tail, rfl⟩
    · obtain rfl := List.prefix_nil.mp begins
      rw [List.append_nil] at same
      exact absent (same ▸ suffix.isInfix)
    · -- the rest of the start would have to begin with a bracket of its own
      cases more with
      | nil =>
        rw [List.append_nil] at same
        exact absent (same ▸ suffix.isInfix)
      | cons d more =>
        obtain ⟨rfl, -⟩ := List.cons_prefix_cons.mp begins
        cases rest with
        | nil => exact some rfl
        | cons c rest =>
          rw [opening, List.cons_append, List.cons.injEq] at same
          exact bracket_not_mem_openingTail (same.2 ▸ by simp)

end Placeholder

open Placeholder

/-! ## A page in parts -/

/-- A part of a page. -/
inductive PagePart where
  /-- A character that belongs to no place. -/
  | char (c : Char)
  /-- The place of a diagram. -/
  | place (place : Placeholder)
  deriving Repr, DecidableEq

/-- A part as it is written. -/
def PagePart.chars : PagePart → List Char
  | .char c => [c]
  | .place held => held.chars

/-- The place that a part is. -/
def PagePart.place? : PagePart → Option Placeholder
  | .char _ => none
  | .place held => some held

/-- The parts of a page from left to right. -/
def pageParts : List Char → List PagePart
  | [] => []
  | c :: rest =>
    match _read : Placeholder.ofStart? (c :: rest) with
    | none => .char c :: pageParts rest
    | some (place, after) => .place place :: pageParts after
termination_by cs => cs.length
decreasing_by
  · exact Nat.lt_succ_self _
  · exact length_after_lt _read

/-- The places of a page from left to right. -/
def placesOf (cs : List Char) : List Placeholder := (pageParts cs).filterMap PagePart.place?

variable {place : Placeholder} {cs after : List Char}

@[simp]
theorem pageParts_nil : pageParts [] = [] := by rw [pageParts]

theorem pageParts_cons_of_none {c : Char} (none : Placeholder.ofStart? (c :: after) = none) :
    pageParts (c :: after) = .char c :: pageParts after := by
  rw [pageParts]
  split
  next => rfl
  next read => rw [none] at read; contradiction

theorem pageParts_place (readable : place.IsReadable) (after : List Char) :
    pageParts (place.chars ++ after) = .place place :: pageParts after := by
  have read := ofStart?_chars readable after
  match started : place.chars ++ after with
  | [] =>
    rw [chars, opening] at started
    contradiction
  | c :: rest =>
    rw [started] at read
    rw [pageParts]
    split
    next none => rw [none] at read; contradiction
    next found => rw [found] at read; simp_all

theorem filterMap_place?_map_char (cs : List Char) :
    (cs.map PagePart.char).filterMap PagePart.place? = [] := by
  rw [List.filterMap_map]
  exact List.filterMap_eq_nil_iff.mpr fun c _ => rfl

/-- A page is written in its parts, and its places are readable. -/
theorem pageParts_spec (cs : List Char) :
    (pageParts cs).flatMap PagePart.chars = cs ∧ ∀ place ∈ placesOf cs, place.IsReadable := by
  unfold placesOf
  induction cs using pageParts.induct with
  | case1 => simp
  | case2 c rest none ih =>
    rw [pageParts_cons_of_none none]
    simpa [PagePart.chars, PagePart.place?] using ih
  | case3 c rest place after read ih =>
    obtain ⟨readable, same⟩ := ofStart?_eq_some_iff.mp read
    rw [same, pageParts_place readable]
    refine ⟨?_, ?_⟩
    · rw [List.flatMap_cons, ih.1, PagePart.chars]
    · rw [List.filterMap_cons, PagePart.place?, List.forall_mem_cons]
      exact ⟨readable, ih.2⟩

theorem pageParts_append_of_clear (clear : Clear cs after) :
    pageParts (cs ++ after) = cs.map .char ++ pageParts after := by
  induction cs with
  | nil => rfl
  | cons c cs ih =>
    have none : Placeholder.ofStart? (c :: (cs ++ after)) = none := by
      by_contra read
      obtain ⟨⟨place, rest⟩, read⟩ := Option.ne_none_iff_exists'.mp read
      obtain ⟨-, same⟩ := ofStart?_eq_some_iff.mp read
      refine clear (c :: cs) List.suffix_rfl (List.cons_ne_nil c cs) ?_
      rw [List.cons_append, same, chars, List.append_assoc]
      exact List.prefix_append _ _
    rw [List.cons_append, pageParts_cons_of_none none, ih clear.ofCons, List.map_cons, List.cons_append]

theorem placesOf_append_of_clear (clear : Clear cs after) : placesOf (cs ++ after) = placesOf after := by
  rw [placesOf, pageParts_append_of_clear clear, List.filterMap_append, filterMap_place?_map_char]
  rfl

theorem placesOf_place (readable : place.IsReadable) (after : List Char) :
    placesOf (place.chars ++ after) = place :: placesOf after := by
  rw [placesOf, pageParts_place readable, List.filterMap_cons]
  rfl

/-! ## Markup with known places -/

/-- The places of some markup are known whatever follows it. -/
def Laid (cs : List Char) (places : List Placeholder) : Prop :=
  ∀ after, placesOf (cs ++ after) = places ++ placesOf after

namespace Laid

variable {other : List Char} {places more : List Placeholder}

theorem nil : Laid [] [] := fun _ => rfl

theorem append (front : Laid cs places) (back : Laid other more) :
    Laid (cs ++ other) (places ++ more) := by
  intro after
  rw [List.append_assoc, front, back, List.append_assoc]

theorem ofApart (apart : Apart cs) : Laid cs [] := fun after => placesOf_append_of_clear (apart.clear after)

theorem ofPlace (readable : place.IsReadable) : Laid place.chars [place] := placesOf_place readable

theorem placesOf_eq (laid : Laid cs places) : placesOf cs = places := by
  have whole := laid []
  rwa [List.append_nil, placesOf, placesOf, pageParts_nil, List.filterMap_nil, List.append_nil] at whole

theorem flatMap {α : Type} {f : α → List Char} {g : α → List Placeholder} {list : List α}
    (each : ∀ a ∈ list, Laid (f a) (g a)) : Laid (list.flatMap f) (list.flatMap g) := by
  induction list with
  | nil => exact nil
  | cons a rest ih =>
    rw [List.forall_mem_cons] at each
    exact each.1.append (ih each.2)

end Laid

end Galley
