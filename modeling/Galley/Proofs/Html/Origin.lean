import Galley.Html.Rules
import Galley.Proofs.Html.Cells

/-!
# Where elements come from

Every element of a tree was opened by a tag of the markup, or it is one of a few that are implied. So what holds of
the tags of some markup holds of the elements of its tree.

* `Ordinary` — what is said of tags that change nothing in the way markup is read;
* `Builder.Sound` — a state all of whose elements come from such tags;
* `Builder.Sound.closeFormatting` — formatting that is made anew is made of the same tags;
* `Builder.Sound.step` — one token.
-/

namespace Galley.Html

/-- The element of a tag. -/
def StartTag.element (tag : StartTag) : Element := ⟨.html, tag.name, tag.attributes⟩

/-- Elements that stand in a tree without a tag of their own. -/
def impliedNames : List String := ["p", "br", "colgroup", "tbody", "tr"]

/-- Tags after which markup is read in another way, and the one that is read as another one. -/
def switchingNames : List String :=
  ["title", "noframes", "style", "script", "textarea", "iframe", "noembed", "noscript", "plaintext", "xmp", "math",
   "svg", "image"]

/-- Something that holds of implied elements, and of none that changes the way markup is read. -/
structure Ordinary (kind : Element → Prop) : Prop where
  /-- Implied elements are of the kind. -/
  implied : ∀ name ∈ impliedNames, kind ⟨.html, name, []⟩
  /-- Others are not. -/
  calm : ∀ element, kind element → element.name ∉ switchingNames

/-- If the token is an opening tag, its element is of some kind. -/
def Token.Opens (kind : Element → Prop) : Token → Prop
  | .start tag => kind tag.element
  | _ => True

variable {kind : Element → Prop}

/-! ## Open elements -/

/-- Open elements of HTML. None but the last one is the root. -/
structure Stack (opened : List OpenElement) : Prop where
  /-- They are elements of HTML. -/
  spaces : ∀ element ∈ opened, element.space = .html
  /-- The root is the last one. -/
  inner : ∀ element ∈ opened.dropLast, element.id ≠ 0

namespace Stack

variable {opened opened' : List OpenElement}

theorem sublist (stack : Stack opened) (less : opened'.Sublist opened) : Stack opened' where
  spaces element member := stack.spaces element (less.subset member)
  inner := by
    intro element member
    refine stack.inner element ?_
    rcases List.eq_nil_or_concat' opened with rfl | ⟨front, last, rfl⟩
    · rw [List.sublist_nil.mp less] at member
      cases member
    · rw [List.dropLast_concat]
      -- The rest keeps the last element or leaves it out.
      obtain ⟨kept, final, rfl, keptLess, finalLess⟩ := List.sublist_append_iff.mp less
      rcases List.sublist_singleton.mp finalLess with rfl | rfl
      · rw [List.append_nil] at member
        exact keptLess.subset (List.dropLast_subset _ member)
      · rw [List.dropLast_concat] at member
        exact keptLess.subset member

/-- More open elements, none of which is the root. -/
theorem append {front : List OpenElement} (stack : Stack opened)
    (new : ∀ element ∈ front, element.space = .html ∧ element.id ≠ 0) : Stack (front ++ opened) where
  spaces element member := (List.mem_append.mp member).elim (fun first => (new element first).1) (stack.spaces element)
  inner element member := by
    cases opened with
    | nil =>
      rw [List.append_nil] at member
      exact (new element (List.dropLast_subset _ member)).2
    | cons other rest =>
      rw [List.dropLast_append_of_ne_nil (List.cons_ne_nil _ _)] at member
      exact (List.mem_append.mp member).elim (fun first => (new element first).2) (stack.inner element)

theorem cons {element : OpenElement} (stack : Stack opened) (space : element.space = .html) (inner : element.id ≠ 0) :
    Stack (element :: opened) :=
  @append _ [element] stack fun _ member => List.mem_singleton.mp member ▸ ⟨space, inner⟩

end Stack

namespace Builder

theorem dropThrough_suffix (isSought : OpenElement → Bool) (opened : List OpenElement) :
    dropThrough isSought opened <:+ opened := by
  fun_induction dropThrough isSought opened with
  | case1 => exact List.suffix_rfl
  | case2 => exact List.suffix_rfl
  | case3 element rest _ _ => exact List.suffix_cons _ _
  | case4 element rest _ _ ih => exact ih.trans (List.suffix_cons _ _)

/-- A state all of whose elements come from tags of some kind. -/
structure Sound (kind : Element → Prop) (builder : Builder) : Prop where
  /-- So do the elements of the document. -/
  dom : builder.dom.Holds kind
  /-- The open elements are of HTML. -/
  stack : Stack builder.opened
  /-- Formatting goes on with tags of the kind. -/
  formatting : ∀ id tag, .element id tag ∈ builder.formatting → kind tag.element
  /-- Text is read as markup. -/
  textMode : builder.textMode = .markup

namespace Sound

variable {builder builder' : Builder} {tag : StartTag}

/-- Elements that are closed and formatting that is forgotten. -/
theorem less (sound : Sound kind builder) (dom : builder'.dom = builder.dom)
    (opened : builder'.opened.Sublist builder.opened) (formatting : builder'.formatting ⊆ builder.formatting)
    (textMode : builder'.textMode = builder.textMode) : Sound kind builder' where
  dom := dom ▸ sound.dom
  stack := sound.stack.sublist opened
  formatting id tag member := sound.formatting id tag (formatting member)
  textMode := textMode.trans sound.textMode

/-- What else there is in a state does not count. -/
theorem of_same (sound : Sound kind builder) (dom : builder'.dom = builder.dom)
    (opened : builder'.opened = builder.opened) (formatting : builder'.formatting = builder.formatting)
    (textMode : builder'.textMode = builder.textMode) : Sound kind builder' :=
  sound.less dom (opened ▸ List.Sublist.refl _) (formatting ▸ List.Subset.refl _) textMode

theorem empty : Sound kind .empty where
  dom := .empty
  stack := ⟨fun element member => by rw [List.mem_singleton.mp member]; rfl, fun _ absent => by cases absent⟩
  formatting _ _ absent := by cases absent
  textMode := rfl

/-! ## Ends of elements -/

theorem close (sound : Sound kind builder) {opened : List OpenElement} (less : opened.Sublist builder.opened) :
    Sound kind { builder with opened } :=
  sound.less rfl less (List.Subset.refl _) rfl

theorem pop (sound : Sound kind builder) : Sound kind builder.pop := by
  unfold Builder.pop
  split
  next _ next rest same => exact sound.close (same ▸ List.sublist_cons_self _ _)
  next => exact sound

theorem popThrough (sound : Sound kind builder) (names : List String) : Sound kind (builder.popThrough names) :=
  sound.close (dropThrough_suffix _ _).sublist

theorem popTo (sound : Sound kind builder) (names : List String) : Sound kind (builder.popTo names) :=
  sound.close (List.dropWhile_sublist _)

theorem closeImplied (sound : Sound kind builder) (except : List String) : Sound kind (builder.closeImplied except) :=
  sound.close (List.dropWhile_sublist _)

theorem closeParagraph (sound : Sound kind builder) : Sound kind builder.closeParagraph :=
  (sound.closeImplied _).popThrough _

theorem endParagraph (sound : Sound kind builder) : Sound kind builder.endParagraph := by
  unfold Builder.endParagraph
  split
  · exact sound.closeParagraph
  · exact sound

theorem forgetOpen (sound : Sound kind builder) (id : Nat) : Sound kind (builder.forgetOpen id) :=
  sound.close List.filter_sublist

theorem forgetFormatting (sound : Sound kind builder) (id : Nat) : Sound kind (builder.forgetFormatting id) :=
  sound.less rfl (List.Sublist.refl _) List.filter_sublist.subset rfl

theorem clearToMarker (sound : Sound kind builder) : Sound kind builder.clearToMarker :=
  sound.less rfl (List.Sublist.refl _)
    ((List.drop_sublist _ _).trans (List.dropWhile_sublist _)).subset rfl

theorem closeOther (sound : Sound kind builder) (name : String) : Sound kind (builder.closeOther name) := by
  unfold Builder.closeOther
  split
  next => exact sound
  next => exact (sound.closeImplied _).close (dropThrough_suffix _ _).sublist

theorem resetMode (sound : Sound kind builder) : Sound kind builder.resetMode := sound.of_same rfl rfl rfl rfl

/-! ## New elements and text -/

theorem addText (sound : Sound kind builder) (chars : List Char) : Sound kind (builder.addText chars) := by
  unfold Builder.addText
  split
  · exact sound
  · exact ⟨sound.dom.addText _ _, sound.stack, sound.formatting, sound.textMode⟩

theorem insert (sound : Sound kind builder) (opens : kind tag.element) : Sound kind (builder.insert tag) := by
  obtain ⟨created, inner⟩ := sound.dom.createElement opens
  exact ⟨created.move inner _, sound.stack.cons rfl inner, sound.formatting, sound.textMode⟩

theorem insertNamed (ordinary : Ordinary kind) (sound : Sound kind builder) {name : String}
    (implied : name ∈ impliedNames) : Sound kind (builder.insertNamed name) :=
  sound.insert (ordinary.implied name implied)

theorem insertVoid (sound : Sound kind builder) (opens : kind tag.element) : Sound kind (builder.insertVoid tag) :=
  (sound.insert opens).pop

theorem mark (sound : Sound kind builder) : Sound kind builder.mark where
  dom := sound.dom
  stack := sound.stack
  formatting id tag member := by
    rcases List.mem_cons.mp member with absent | old
    · cases absent
    · exact sound.formatting id tag old
  textMode := sound.textMode

/-! ## Formatting -/

theorem dropThird_subset (tag : StartTag) (count : Nat) (entries : List Formatting) :
    dropThird tag count entries ⊆ entries := by
  fun_induction dropThird tag count entries with
  | case1 => exact List.Subset.refl _
  | case2 rest => exact List.Subset.refl _
  | case3 count id other rest _ _ => exact List.subset_cons_self _ _
  | case4 count id other rest _ _ ih => exact List.cons_subset_cons _ ih
  | case5 count id other rest _ ih => exact List.cons_subset_cons _ ih

/-- Formatting with one more entry. -/
theorem withEntry (sound : Sound kind builder) (opens : kind tag.element) {entries : List Formatting}
    (known : entries ⊆ builder.formatting) (id : Nat) :
    Sound kind { builder with formatting := .element id tag :: entries } where
  dom := sound.dom
  stack := sound.stack
  formatting other tag' member := by
    rcases List.mem_cons.mp member with same | old
    · obtain ⟨-, rfl⟩ := Formatting.element.inj same
      exact opens
    · exact sound.formatting other tag' (known old)
  textMode := sound.textMode

theorem insertFormatting (sound : Sound kind builder) (opens : kind tag.element) :
    Sound kind (builder.insertFormatting tag) :=
  (sound.insert opens).withEntry opens (dropThird_subset tag 0 _) _

/-- Formatting that is opened again has the same tags. -/
theorem reopen (sound : Sound kind builder) {entries : List Formatting} (known : entries ⊆ builder.formatting) :
    Sound kind (builder.reopen entries).1 ∧
      ∀ id tag, .element id tag ∈ (builder.reopen entries).2 → kind tag.element := by
  induction entries with
  | nil => exact ⟨sound, fun _ _ absent => by cases absent⟩
  | cons entry rest ih =>
    obtain ⟨first, others⟩ := List.cons_subset.mp known
    obtain ⟨opened, made⟩ := ih others
    unfold Builder.reopen
    cases entry with
    | marker => exact ⟨opened, made⟩
    | element id tag =>
      have opens := sound.formatting id tag first
      refine ⟨opened.insert opens, fun other tag' member => ?_⟩
      rcases List.mem_cons.mp member with same | old
      · obtain ⟨-, rfl⟩ := Formatting.element.inj same
        exact opens
      · exact made other tag' old

theorem reopenFormatting (sound : Sound kind builder) : Sound kind builder.reopenFormatting := by
  unfold Builder.reopenFormatting
  simp only
  have known (isClosed : Formatting → Bool) : builder.formatting.takeWhile isClosed ⊆ builder.formatting :=
    (List.takeWhile_sublist isClosed).subset
  obtain ⟨opened, made⟩ := sound.reopen (known _)
  refine ⟨opened.dom, opened.stack, fun id tag member => ?_, opened.textMode⟩
  rcases List.mem_append.mp member with new | old
  · exact made id tag new
  · exact sound.formatting id tag ((List.drop_sublist _ _).subset old)

theorem mem_of_findFormatting? {name : String} {id : Nat} {entries : List Formatting}
    (found : findFormatting? name entries = some (id, tag)) : .element id tag ∈ entries := by
  fun_induction findFormatting? name entries with
  | case1 => cases found
  | case2 => cases found
  | case3 other tag' rest same =>
    obtain ⟨rfl, rfl⟩ := Prod.mk.inj (Option.some.inj found)
    exact List.mem_cons_self
  | case4 other tag' rest _ ih => exact List.mem_cons_of_mem _ (ih found)

theorem mem_replaceFormatting {old : Nat} {bookmark : Option Nat} {entry other : Formatting}
    {entries : List Formatting} (member : other ∈ replaceFormatting old bookmark entry entries) :
    other = entry ∨ other ∈ entries := by
  unfold replaceFormatting at member
  split at member
  · obtain ⟨before, listed, rfl⟩ := List.mem_map.mp member
    split
    · exact .inl rfl
    · exact .inr listed
  · obtain ⟨before, listed, made⟩ := List.mem_flatMap.mp member
    have known := (List.mem_filter.mp listed).1
    split at made
    · rcases List.mem_cons.mp made with same | same
      · exact .inl same
      · exact .inr (List.mem_singleton.mp same ▸ known)
    · exact .inr (List.mem_singleton.mp made ▸ known)

/-- Elements that are made anew have the tags of the old ones. The last one that is made is not the root. -/
theorem cloneBetween (sound : Sound kind builder) (count : Nat) {last : Nat} (inner : last ≠ 0)
    (bookmark : Option Nat) {between : List OpenElement} (spaces : ∀ element ∈ between, element.space = .html) :
    let made := builder.cloneBetween count last bookmark between
    Sound kind made.1 ∧ (∀ element ∈ made.2.1, element.space = .html ∧ element.id ≠ 0) ∧ made.2.2.1 ≠ 0 := by
  induction between generalizing builder count last bookmark with
  | nil => exact ⟨sound, fun _ absent => (by cases absent), inner⟩
  | cons element rest ih =>
    obtain ⟨first, others⟩ := List.forall_mem_cons.mp spaces
    unfold Builder.cloneBetween
    simp only
    split
    next => exact ih sound (count + 1) inner bookmark others
    next tag found =>
    split
    · exact ih (sound.forgetFormatting element.id) (count + 1) inner bookmark others
    · -- The tag is that of an entry in the list of formatting.
      have opens : kind tag.element := by
        obtain ⟨entry, member, is⟩ := List.exists_of_findSome?_eq_some found
        cases entry with
        | marker => cases is
        | element id other =>
          simp only [Option.ite_none_right_eq_some, Option.some.injEq] at is
          exact is.2 ▸ sound.formatting id other member
      obtain ⟨created, fresh⟩ := sound.dom.createElement opens
      have next : Sound kind { builder with
          dom := (builder.dom.create (.element tag.element)).1.move last
            (.last (builder.dom.create (.element tag.element)).2),
          formatting := builder.formatting.map fun entry =>
            if entry.isElement element.id then .element (builder.dom.create (.element tag.element)).2 tag
            else entry } := by
        refine ⟨created.move inner (.last _), sound.stack, fun id tag' member => ?_, sound.textMode⟩
        obtain ⟨entry, listed, made⟩ := List.mem_map.mp member
        split at made
        · obtain ⟨-, rfl⟩ := Formatting.element.inj made
          exact opens
        · exact sound.formatting id tag' (made ▸ listed)
      obtain ⟨sound', kept, last'⟩ := ih next (count + 1) fresh
        (bookmark.orElse fun _ => some (builder.dom.create (.element tag.element)).2) others
      exact ⟨sound', List.forall_mem_cons.mpr ⟨⟨first, fresh⟩, kept⟩, last'⟩

theorem closeFormattingOnce (sound : Sound kind builder) (name : String) :
    Sound kind (builder.closeFormattingOnce name).1 := by
  unfold Builder.closeFormattingOnce
  split
  next => exact sound.closeOther name
  next id tag found =>
    have opens := sound.formatting id tag (mem_of_findFormatting? found)
    simp only
    split
    next => exact sound.forgetFormatting id
    next element outer split' =>
      -- Some elements are open inside the formatting, and none of them is the root.
      generalize inside : builder.opened.takeWhile (fun element => element.id != id) = inner at split'
      have whole : builder.opened = inner ++ element :: outer := by
        have prefix' : inner <+: builder.opened := inside ▸ List.takeWhile_prefix _
        rw [← split']
        conv => lhs; rw [← List.take_append_drop inner.length builder.opened]
        rw [← List.prefix_iff_eq_take.mp prefix']
      have innerKnown : ∀ other ∈ inner, other.space = .html ∧ other.id ≠ 0 := fun other member => by
        refine ⟨sound.stack.spaces other (whole ▸ List.mem_append_left _ member), sound.stack.inner other ?_⟩
        rw [whole, List.dropLast_append_of_ne_nil (List.cons_ne_nil _ _)]
        exact List.mem_append_left _ member
      have outerLess : outer.Sublist builder.opened :=
        whole ▸ (List.sublist_cons_self _ _).trans (List.sublist_append_right _ _)
      split
      · exact sound
      split
      next => exact (sound.forgetFormatting id).close outerLess
      next between block innermost spanned =>
        have pieces : inner.reverse = between ++ block :: innermost := by
          rw [List.span_eq_takeWhile_dropWhile, Prod.mk.injEq] at spanned
          rw [← List.takeWhile_append_dropWhile (p := fun element => !element.isSpecial) (l := inner.reverse),
            spanned.1, spanned.2]
        have known : ∀ other ∈ between ++ block :: innermost, other.space = .html ∧ other.id ≠ 0 :=
          fun other member => innerKnown other (List.mem_reverse.mp (pieces ▸ member))
        obtain ⟨betweenKnown, rest⟩ := List.forall_mem_append.mp known
        obtain ⟨blockKnown, innermostKnown⟩ := List.forall_mem_cons.mp rest
        have betweenSpaces : ∀ other ∈ between.reverse, other.space = .html := fun other member =>
          (betweenKnown other (List.mem_reverse.mp member)).1
        have made := sound.cloneBetween 1 blockKnown.2 none betweenSpaces
        generalize builder.cloneBetween 1 block.id none between.reverse = clones at made ⊢
        obtain ⟨next, clones, newest, bookmark⟩ := clones
        obtain ⟨cloned, kept, last⟩ := made
        obtain ⟨moved, fresh⟩ := (cloned.dom.move last (next.placeIn (outer.head?.getD root))).createElement opens
        simp only [StartTag.element] at cloned kept moved fresh ⊢
        generalize (next.dom.move newest (next.placeIn (outer.head?.getD root))).create _ = created at moved fresh ⊢
        obtain ⟨dom, clone⟩ := created
        simp only at moved fresh
        have stack := (sound.stack.sublist outerLess).append kept
        refine ⟨?_, ?_, fun other tag' member => ?_, cloned.textMode⟩
        · -- Without this the projection is opened last, and that takes long.
          simp only
          exact (moved.moveChildren block.id clone).move fresh (.last block.id)
        · refine Stack.append ((stack.cons blockKnown.1 blockKnown.2).cons rfl fresh) fun other member => ?_
          exact innermostKnown other (List.mem_reverse.mp member)
        · rcases mem_replaceFormatting member with same | old
          · obtain ⟨-, rfl⟩ := Formatting.element.inj same
            exact opens
          · exact cloned.formatting other tag' old

theorem closeFormattingRounds (sound : Sound kind builder) (name : String) (rounds : Nat) :
    Sound kind (builder.closeFormattingRounds name rounds) := by
  induction rounds generalizing builder with
  | zero => exact sound
  | succ rounds ih =>
    have once := sound.closeFormattingOnce name
    unfold Builder.closeFormattingRounds
    simp only
    split
    · exact ih once
    · exact once

theorem closeFormatting (sound : Sound kind builder) (name : String) :
    Sound kind (builder.closeFormatting name) := by
  unfold Builder.closeFormatting
  simp only
  split
  · exact sound.pop
  · exact sound.closeFormattingRounds name 8

end Sound
end Builder
end Galley.Html
