import Galley.Proofs.Html.Cells
import Galley.Proofs.Session.Shown
import Mathlib

/-!
# The places of a written tree

A tree is written with its texts and values escaped, so a place stands in what is written where an element of the tree
is one: with a class and an id and with nothing in it but text.

* `IsInner`, `eq_of_opening` — what is written between the brackets of a tag, and a place that begins there;
* `Element.diagramId?`, `diagramsIn` — the diagrams that stand as such elements in a tree;
* `diagramId?_of_inner` — a tag that reads like that of a place is one;
* `laid_writeAll` — the places of the written tree are those of its diagrams.
-/

namespace Galley

open Galley.Diagram (NamedDiagram)
open Placeholder

namespace Html

/-! ## Diagrams in a tree -/

/-- The name of an attribute as it is written. -/
def Attribute.key (attr : Attribute) : String := attr.scope ++ attr.name

/-- The id of an element that is the place of a diagram: it has a class and an id and nothing else. -/
def Element.diagramId? (element : Element) : Option String :=
  match element.attributes with
  | [kind, named] =>
    if element.name = "div" ∧ kind.key = "class" ∧ kind.value = "mermaid" ∧ named.key = "id" then some named.value
    else none
  | _ => none

/-- What some trees say if they are nothing but text. -/
def textOf? : List Node → Option String
  | [] => some ""
  | .text text :: rest => (textOf? rest).map (text ++ ·)
  | .element _ _ :: _ => none

/-- The diagram that an element is the place of. Its id stays as it is written. -/
def Element.diagram? (element : Element) (content : List Node) : Option NamedDiagram :=
  match element.diagramId?, textOf? content with
  | some named, some text => some ⟨escapeValue named, text⟩
  | _, _ => none

mutual

/-- The diagrams that stand in a tree, in their order. -/
def Node.diagrams : Node → List NamedDiagram
  | .text _ => []
  | .element element content =>
    if element.isVoid || element.isVerbatim then [] else (element.diagram? content).elim (diagramsIn content) ([·])

/-- The diagrams that stand in some trees, in their order. -/
def diagramsIn : List Node → List NamedDiagram
  | [] => []
  | node :: rest => node.diagrams ++ diagramsIn rest

end

/-- The place of a diagram as a tree is written. -/
def placeOf (node : NamedDiagram) : Placeholder := ⟨node.id.toList, (escapeText node.source).toList⟩

theorem Element.id_of_diagram? {element : Element} {content : List Node} {node : NamedDiagram}
    (is : element.diagram? content = some node) : ∃ value, node.id = escapeValue value := by
  unfold Element.diagram? at is
  split at is
  next named text _ _ =>
    cases is
    exact ⟨named, rfl⟩
  next => cases is

mutual

theorem Node.id_of_mem_diagrams {node : NamedDiagram} : (tree : Node) → node ∈ tree.diagrams →
    ∃ value, node.id = escapeValue value
  | .text text, member => by
    rw [Node.diagrams] at member
    cases member
  | .element element content, member => by
    rw [Node.diagrams] at member
    split at member
    · cases member
    · cases is : element.diagram? content with
      | none =>
        rw [is] at member
        exact id_of_mem_diagramsIn content member
      | some other =>
        rw [is] at member
        rw [List.mem_singleton.mp member]
        exact Element.id_of_diagram? is

/-- The id of a diagram is written as a value. -/
theorem id_of_mem_diagramsIn {node : NamedDiagram} : (nodes : List Node) → node ∈ diagramsIn nodes →
    ∃ value, node.id = escapeValue value
  | [], member => by
    rw [diagramsIn] at member
    cases member
  | tree :: rest, member => by
    rw [diagramsIn] at member
    rcases List.mem_append.mp member with here | later
    · exact Node.id_of_mem_diagrams tree here
    · exact id_of_mem_diagramsIn rest later

end

theorem diagram_placeOf (node : NamedDiagram) : (placeOf node).diagram = node := by
  simp only [placeOf, Placeholder.diagram, escapeText, String.toList_ofList, Text.decodeChars_escapeHtml,
    String.ofList_toList]

mutual

/-- The text in a tree that is written as it is. -/
def Node.verbatim : Node → List Char
  | .text _ => []
  | .element element content =>
    if element.isVerbatim then (writeAll true content).toList else verbatimIn content

/-- The text in some trees that is written as it is. -/
def verbatimIn : List Node → List Char
  | [] => []
  | node :: rest => node.verbatim ++ verbatimIn rest

end

/-- A name without the characters that end names, values and tags. -/
def IsPlainName (name : String) : Prop :=
  '<' ∉ name.toList ∧ '>' ∉ name.toList ∧ '\x22' ∉ name.toList

instance (name : String) : Decidable (IsPlainName name) :=
  inferInstanceAs (Decidable ('<' ∉ name.toList ∧ '>' ∉ name.toList ∧ '\x22' ∉ name.toList))

/-- An element with plain names, whose tag looks like no closing tag. -/
structure Element.IsRegular (element : Element) : Prop where
  /-- Its name. -/
  name : IsPlainName element.name
  /-- The names of its attributes. -/
  attributes : ∀ attr ∈ element.attributes, IsPlainName attr.scope ∧ IsPlainName attr.name
  /-- Its name does not begin a closing tag. -/
  opens : '/' ∉ element.name.toList

instance (element : Element) : Decidable element.IsRegular :=
  decidable_of_iff
    (IsPlainName element.name ∧ (∀ attr ∈ element.attributes, IsPlainName attr.scope ∧ IsPlainName attr.name) ∧
      '/' ∉ element.name.toList)
    ⟨fun ⟨name, attributes, opens⟩ => ⟨name, attributes, opens⟩, fun regular => ⟨regular.1, regular.2, regular.3⟩⟩

/-! ## Between brackets -/

theorem not_mem_escapeValue {c : Char} (special : c = '<' ∨ c = '>' ∨ c = '\x22') (cs : List Char) :
    c ∉ cs.flatMap escapeValueChar := by
  intro member
  obtain ⟨d, -, written⟩ := List.mem_flatMap.mp member
  unfold escapeValueChar at written
  split at written
  · rcases special with rfl | rfl | rfl <;> exact absurd written (by decide)
  next other =>
    rcases special with rfl | rfl | rfl
    · exact Text.not_mem_escapeHtml (.inl rfl) [d] (by simpa using written)
    · exact Text.not_mem_escapeHtml (.inr (.inl rfl)) [d] (by simpa using written)
    · unfold escapeTextChar at written
      split_ifs at written
      · exact absurd written (by decide)
      · exact absurd written (by decide)
      · exact absurd written (by decide)
      · exact absurd written (by decide)
      · exact other (List.mem_singleton.mp written).symm

/-- What a tag holds between its brackets. -/
structure IsInner (inner : List Char) : Prop where
  opens : '<' ∉ inner
  closes : '>' ∉ inner
  quotes : Even (inner.count '\x22')

theorem IsInner.append {cs rest : List Char} (front : IsInner cs) (back : IsInner rest) : IsInner (cs ++ rest) where
  opens := by simp [front.opens, back.opens]
  closes := by simp [front.closes, back.closes]
  quotes := by
    rw [List.count_append]
    exact front.quotes.add back.quotes

theorem IsInner.ofName {name : String} (plain : IsPlainName name) : IsInner name.toList where
  opens := plain.1
  closes := plain.2.1
  quotes := by
    rw [List.count_eq_zero.mpr plain.2.2]
    exact Even.zero

theorem isInner_write {attr : Attribute} (scope : IsPlainName attr.scope) (name : IsPlainName attr.name) :
    IsInner attr.write.toList := by
  have value : IsInner ('\x22' :: (attr.value.toList.flatMap escapeValueChar ++ ['\x22'])) := by
    have absent {c : Char} (special : c = '<' ∨ c = '>' ∨ c = '\x22') :=
      not_mem_escapeValue special attr.value.toList
    refine ⟨?_, ?_, ?_⟩
    · simp [absent]
    · simp [absent]
    · rw [List.count_cons_self, List.count_append, List.count_eq_zero.mpr (absent (.inr (.inr rfl)))]
      exact ⟨1, rfl⟩
  have space : IsInner [' '] := ⟨by decide, by decide, by decide⟩
  have equals : IsInner ['='] := ⟨by decide, by decide, by decide⟩
  have whole := space.append ((IsInner.ofName scope).append ((IsInner.ofName name).append (equals.append value)))
  convert whole using 1
  unfold Attribute.write escapeValue
  simp only [String.toList_append, String.toList_ofList, List.append_assoc]
  rfl

theorem isInner_attributes {attributes : List Attribute}
    (plain : ∀ attr ∈ attributes, IsPlainName attr.scope ∧ IsPlainName attr.name) :
    IsInner (attributes.flatMap fun attr => attr.write.toList) := by
  induction attributes with
  | nil => exact ⟨by simp, by simp, by simp⟩
  | cons attr rest ih =>
    rw [List.forall_mem_cons] at plain
    rw [List.flatMap_cons]
    exact (isInner_write plain.1.1 plain.1.2).append (ih plain.2)

/-- The id of a place ends in the tag that it begins in: the quotes of a tag come in pairs. -/
theorem eq_of_opening {inner rest tail id after : List Char} (closes : '>' ∉ inner)
    (quotes : Even (inner.count '\x22')) (tailCloses : '>' ∉ tail) (tailQuotes : tail.count '\x22' = 3)
    (idPlain : '\x22' ∉ id) (same : inner ++ '>' :: rest = tail ++ (id ++ '\x22' :: '>' :: after)) :
    inner = tail ++ (id ++ ['\x22']) ∧ rest = after := by
  -- the tag ends behind the start of the place
  obtain ⟨value, rfl, left⟩ : ∃ value, inner = tail ++ value ∧ value ++ '>' :: rest = id ++ '\x22' :: '>' :: after := by
    rcases List.append_eq_append_iff.mp same with ⟨more, whole, left⟩ | ⟨more, whole, left⟩
    · cases more with
      | nil => exact ⟨[], by simpa using whole.symm, by simpa using left⟩
      | cons c more =>
        obtain ⟨rfl, -⟩ := List.cons_eq_cons.mp left
        exact absurd (by simp [whole]) tailCloses
    · exact ⟨more, whole, left.symm⟩
  rw [List.count_append, tailQuotes] at quotes
  -- so one more quote is in the tag, and that is the one behind the id
  obtain ⟨more, rfl, last⟩ : ∃ more, value = id ++ '\x22' :: more ∧ more ++ '>' :: rest = '>' :: after := by
    rcases List.append_eq_append_iff.mp left with ⟨more, whole, left⟩ | ⟨more, whole, left⟩
    · have none : value.count '\x22' = 0 :=
        List.count_eq_zero.mpr fun member => idPlain (whole ▸ List.mem_append_left _ member)
      rw [none] at quotes
      exact absurd quotes (by decide)
    · cases more with
      | nil => simp at left
      | cons c more =>
        obtain ⟨rfl, behind⟩ := List.cons_eq_cons.mp left
        exact ⟨more, whole, behind.symm⟩
  cases more with
  | nil => exact ⟨rfl, by simpa using last⟩
  | cons c more =>
    obtain ⟨rfl, -⟩ := List.cons_eq_cons.mp last
    exact absurd (by simp) closes

theorem count_quotes_opening : Placeholder.openingTail.count '\x22' = 3 := by decide

/-! ## Opening tags -/

variable {element : Element} {attr : Attribute} {nodes content : List Node} {id rest after : List Char}

/-- What an opening tag holds between its brackets. -/
def Element.inner (element : Element) : List Char :=
  element.name.toList ++ element.attributes.flatMap fun attr => attr.write.toList

theorem toList_openTag (element : Element) : element.openTag.toList = '<' :: (element.inner ++ ['>']) := by
  simp only [Element.openTag, Element.inner, String.toList_append, String.toList_join, List.flatMap_map,
    List.append_assoc]
  rfl

theorem Element.IsRegular.inner (regular : element.IsRegular) : IsInner element.inner :=
  (IsInner.ofName regular.name).append (isInner_attributes regular.attributes)

theorem toList_write (attr : Attribute) :
    attr.write.toList = ' ' :: (attr.key.toList ++ '=' :: '\x22' :: ((escapeValue attr.value).toList ++ ['\x22'])) := by
  simp only [Attribute.write, Attribute.key, String.toList_append, List.append_assoc]
  rfl

/-- Two texts are the same up to their first stop. -/
theorem eq_of_stop {a b x y : List Char} {stop : Char} (absent : stop ∉ a) (absent' : stop ∉ b)
    (same : a ++ stop :: x = b ++ stop :: y) : a = b ∧ x = y := by
  have taken := Text.takeWhile_exact (Text.bne_of_not_mem absent) (bne_self_eq_false stop) x
  rw [same, Text.takeWhile_exact (Text.bne_of_not_mem absent') (bne_self_eq_false stop)] at taken
  subst taken
  exact ⟨rfl, (List.cons.inj (List.append_cancel_left same)).2⟩

theorem quote_not_mem_escapeValue (value : String) : '\x22' ∉ (escapeValue value).toList := by
  rw [escapeValue, String.toList_ofList]
  exact not_mem_escapeValue (.inr (.inr rfl)) _

theorem escapeValue_eq_self {value : String} (plain : '&' ∉ (escapeValue value).toList) : escapeValue value = value := by
  rw [escapeValue, String.toList_ofList] at plain
  have each : ∀ c ∈ value.toList, escapeValueChar c = [c] := by
    intro c member
    have absent : '&' ∉ escapeValueChar c := fun written => plain (List.mem_flatMap.mpr ⟨c, member, written⟩)
    unfold escapeValueChar escapeTextChar at absent ⊢
    split_ifs at absent ⊢ <;> first | rfl | exact absurd absent (by decide)
  rw [escapeValue, List.flatMap_congr each, List.flatMap_singleton', String.ofList_toList]

/-- The tag of a place. -/
theorem inner_of_diagramId? {value : String} (is : element.diagramId? = some value) :
    element.inner = openingTail ++ ((escapeValue value).toList ++ ['\x22']) := by
  unfold Element.diagramId? at is
  split at is
  next kind own attributes =>
    split_ifs at is with parts
    obtain ⟨name, kindKey, kindValue, ownKey⟩ := parts
    cases is
    simp only [Element.inner, attributes, name, List.flatMap_cons, List.flatMap_nil, toList_write, kindKey, kindValue,
      ownKey, List.append_nil]
    rfl
  next => cases is

/-- How a place begins, cut at its quotes. -/
theorem openingTail_eq (rest : List Char) : openingTail ++ rest =
    ("div".toList ++ ' ' :: ("class".toList ++ ['='])) ++
      '\x22' :: ("mermaid".toList ++ '\x22' :: ((' ' :: ("id".toList ++ ['='])) ++ '\x22' :: rest)) := rfl

theorem flatMap_write_cons (attr : Attribute) (attributes : List Attribute) :
    (attr :: attributes).flatMap (fun attr => attr.write.toList) =
      (' ' :: (attr.key.toList ++ ['='])) ++
        '\x22' :: ((escapeValue attr.value).toList ++ '\x22' :: attributes.flatMap fun attr => attr.write.toList) := by
  rw [List.flatMap_cons, toList_write]
  simp only [List.cons_append, List.append_assoc, List.nil_append]

/-- A tag that reads like that of a place is one: each quote in it opens or closes a value. -/
theorem diagramId?_of_inner (regular : element.IsRegular) (quote : '\x22' ∉ id)
    (same : element.inner = openingTail ++ (id ++ ['\x22'])) :
    ∃ value, element.diagramId? = some value ∧ (escapeValue value).toList = id := by
  have keyQuote {attr : Attribute} (listed : attr ∈ element.attributes) :
      '\x22' ∉ ' ' :: (attr.key.toList ++ ['=']) := by
    have apart := regular.attributes attr listed
    rw [Attribute.key, String.toList_append]
    simp [apart.1.2.2, apart.2.2.2]
  have nameQuote : '\x22' ∉ element.name.toList := regular.name.2.2
  unfold Element.inner at same
  unfold Element.diagramId?
  generalize element.name = name at *
  generalize element.attributes = attributes at *
  cases attributes with
  | nil =>
    rw [List.flatMap_nil, List.append_nil] at same
    refine absurd ?_ nameQuote
    rw [same]
    exact List.mem_append_right _ (List.mem_append_right _ (List.mem_singleton_self _))
  | cons kind others =>
    -- the name and the first key reach up to the first quote
    rw [flatMap_write_cons, ← List.append_assoc, openingTail_eq] at same
    have upTo := List.not_mem_append nameQuote (keyQuote List.mem_cons_self)
    obtain ⟨start, same⟩ := eq_of_stop upTo (by decide) same
    obtain ⟨value, same⟩ := eq_of_stop (quote_not_mem_escapeValue _) (by decide) same
    -- and the only space up to there is the one in front of the key
    have spaces : name.toList.count ' ' = 0 := by
      have counts := congrArg (List.count ' ') start
      rw [List.count_append, List.count_cons_self] at counts
      have one : ("div".toList ++ ' ' :: ("class".toList ++ ['='])).count ' ' = 1 := by decide
      omega
    obtain ⟨isDiv, key⟩ := eq_of_stop (List.count_eq_zero.mp spaces) (by decide) start
    have isClass := List.append_cancel_right key
    have plainValue : '&' ∉ (escapeValue kind.value).toList := by
      rw [value]
      decide
    have isKind : kind.value = "mermaid" := by
      rw [← escapeValue_eq_self plainValue, ← String.toList_inj, value]
    cases others with
    | nil => cases same
    | cons own others =>
      rw [flatMap_write_cons] at same
      have known := keyQuote (List.mem_cons_of_mem _ List.mem_cons_self)
      obtain ⟨start, same⟩ := eq_of_stop known (by decide) same
      obtain ⟨idValue, none⟩ := eq_of_stop (quote_not_mem_escapeValue _) quote same
      have isId : own.key.toList = "id".toList := List.append_cancel_right (List.cons.inj start).2
      cases others with
      | cons attr _ =>
        rw [flatMap_write_cons] at none
        cases none
      | nil =>
        rw [String.toList_inj] at isDiv isClass isId
        exact ⟨own.value, if_pos ⟨isDiv, isClass, isKind, isId⟩, idValue⟩

/-! ## Places in what is written -/

/-- A place that begins with a tag reaches from this tag to the closing tag behind a text. -/
theorem eq_of_ofStart? {inner : List Char} {place : Placeholder} (isInner : IsInner inner)
    (read : Placeholder.ofStart? ('<' :: (inner ++ '>' :: rest)) = some (place, after)) :
    place.IsReadable ∧ inner = openingTail ++ (place.id ++ ['\x22']) ∧ rest = place.body ++ (closing ++ after) := by
  obtain ⟨readable, same⟩ := ofStart?_eq_some_iff.mp read
  rw [chars, opening, List.append_assoc, List.cons_append] at same
  have tail := (List.cons.inj same).2
  simp only [List.append_assoc, List.cons_append] at tail
  exact ⟨readable, eq_of_opening isInner.closes isInner.quotes (by decide) count_quotes_opening readable.id tail⟩

/-- A tag that begins no place is passed over. -/
theorem placesOf_tag {inner : List Char} (isInner : IsInner inner)
    (none : Placeholder.ofStart? ('<' :: (inner ++ '>' :: rest)) = none) :
    placesOf ('<' :: (inner ++ '>' :: rest)) = placesOf rest := by
  have apart : Apart (inner ++ ['>']) := .ofNotMem (by simp [isInner.opens])
  rw [placesOf, pageParts_cons_of_none none, List.filterMap_cons, ← placesOf, List.append_cons]
  exact placesOf_append_of_clear (apart.clear rest)

theorem closingTag_apart {name : String} (plain : IsPlainName name) : Apart ("</" ++ name ++ ">").toList := by
  have rest : Apart ('/' :: (name.toList ++ ['>'])) := .ofNotMem (by simp [plain.1])
  rw [show ("</" ++ name ++ ">").toList = '<' :: '/' :: (name.toList ++ ['>']) by simp]
  refine ⟨fun _ => ⟨fun begins => ?_, fun begins => ?_⟩, rest⟩
  · exact absurd (List.cons_prefix_cons.mp begins).1 (by decide)
  · exact absurd (List.cons_prefix_cons.mp begins).1 (by decide)

theorem toList_escapeText_append (text other : String) :
    (escapeText (text ++ other)).toList = (escapeText text).toList ++ (escapeText other).toList := by
  simp only [escapeText, String.toList_ofList, String.toList_append, List.flatMap_append]

theorem bracket_not_mem_escapeText (text : String) : '<' ∉ (escapeText text).toList := by
  rw [escapeText, String.toList_ofList]
  exact Text.not_mem_escapeHtml (.inl rfl) _

theorem toList_writeAll_cons (node : Node) (nodes : List Node) :
    (writeAll false (node :: nodes)).toList = (node.write false).toList ++ (writeAll false nodes).toList := by
  rw [writeAll, String.toList_append]

theorem toList_write_text (text : String) : ((Node.text text).write false).toList = (escapeText text).toList := by
  rw [Node.write, if_neg Bool.false_ne_true]

/-- Text is written as text. -/
theorem toList_writeAll_of_textOf? {text : String} (is : textOf? nodes = some text) :
    (writeAll false nodes).toList = (escapeText text).toList := by
  induction nodes generalizing text with
  | nil =>
    cases is
    rfl
  | cons node rest ih =>
    cases node with
    | element => cases is
    | text front =>
      obtain ⟨back, isBack, rfl⟩ := Option.map_eq_some_iff.mp is
      rw [toList_writeAll_cons, toList_write_text, ih isBack, toList_escapeText_append]

theorem toList_write_element (element : Element) (content : List Node) : ∃ more,
    ((Node.element element content).write false).toList = '<' :: (element.inner ++ '>' :: more) := by
  rw [Node.write]
  split
  · exact ⟨[], toList_openTag element⟩
  · simp only [String.toList_append, toList_openTag, List.cons_append, List.append_assoc, List.nil_append]
    exact ⟨_, rfl⟩

/-- An opening tag is no closing tag. -/
theorem Element.IsRegular.ne_slash (regular : element.IsRegular) {c : Char}
    (same : element.inner ++ '>' :: rest = c :: after) : c ≠ '/' := by
  have opens := regular.opens
  unfold Element.inner at same
  cases written : element.name.toList with
  | cons first name =>
    rw [written] at opens same
    obtain ⟨rfl, -⟩ := List.cons.inj same
    exact fun slash => opens (slash ▸ List.mem_cons_self)
  | nil =>
    rw [written, List.nil_append] at same
    cases attributes : element.attributes with
    | nil =>
      rw [attributes] at same
      obtain ⟨rfl, -⟩ := List.cons.inj same
      decide
    | cons attr others =>
      rw [attributes, flatMap_write_cons] at same
      obtain ⟨rfl, -⟩ := List.cons.inj same
      decide

/-- What is not only text is written as a text up to a tag that closes nothing. -/
theorem exists_tag_of_textOf?_eq_none (regular : ∀ element ∈ elementsOf nodes, element.IsRegular)
    (not : textOf? nodes = none) :
    ∃ text c more, (writeAll false nodes).toList = text ++ '<' :: c :: more ∧ '<' ∉ text ∧ c ≠ '/' := by
  induction nodes with
  | nil => cases not
  | cons node rest ih =>
    rw [toList_writeAll_cons]
    obtain ⟨own, others⟩ := List.forall_mem_append.mp regular
    cases node with
    | text front =>
      obtain ⟨text, c, more, written, plain, opens⟩ := ih others (Option.map_eq_none_iff.mp not)
      refine ⟨(escapeText front).toList ++ text, c, more, ?_, ?_, opens⟩
      · rw [toList_write_text, written, List.append_assoc]
      · exact List.not_mem_append (bracket_not_mem_escapeText front) plain
    | element element content =>
      obtain ⟨more, written⟩ := toList_write_element element content
      match begun : element.inner ++ '>' :: (more ++ (writeAll false rest).toList) with
      | [] => exact absurd begun (List.append_ne_nil_of_right_ne_nil _ (List.cons_ne_nil _ _))
      | c :: tail =>
        refine ⟨[], c, tail, ?_, List.not_mem_nil, (own element List.mem_cons_self).ne_slash begun⟩
        rw [written, List.nil_append, ← begun]
        simp only [List.cons_append, List.append_assoc]

/-- The tag of an element is passed over unless the element is the place of a diagram, up to its end. -/
theorem placesOf_openTag (regular : element.IsRegular)
    (apart : ∀ value, element.diagramId? = some value → ∀ body, '<' ∉ body → ∀ after, rest ≠ body ++ (closing ++ after)) :
    placesOf (element.openTag.toList ++ rest) = placesOf rest := by
  rw [toList_openTag, List.cons_append, List.append_assoc, List.singleton_append]
  refine placesOf_tag regular.inner ?_
  by_contra read
  obtain ⟨⟨place, after⟩, read⟩ := Option.ne_none_iff_exists'.mp read
  obtain ⟨readable, tag, body⟩ := eq_of_ofStart? regular.inner read
  obtain ⟨value, isPlace, -⟩ := diagramId?_of_inner regular readable.id tag
  exact apart value isPlace place.body readable.body after body

theorem laid_openTag (regular : element.IsRegular) (not : element.diagramId? = none) : Laid element.openTag.toList [] := by
  intro after
  refine placesOf_openTag regular fun value is => ?_
  rw [not] at is
  cases is

/-- An element that is no place, or a place with an element in it, has the places of its content. -/
theorem laid_content {places : List Placeholder} (regular : element.IsRegular)
    (inside : ∀ element ∈ elementsOf content, element.IsRegular) (none : element.diagram? content = none)
    (laid : Laid (writeAll false content).toList places) :
    Laid (element.openTag.toList ++ (writeAll false content).toList) places := by
  intro after
  rw [List.append_assoc, ← laid after]
  refine placesOf_openTag regular fun value isPlace body plainBody behind same => ?_
  have notText : textOf? content = Option.none := by
    unfold Element.diagram? at none
    rw [isPlace] at none
    cases text : textOf? content with
    | none => rfl
    | some text =>
      rw [text] at none
      cases none
  -- the text in it ends at an opening tag, but that of a place ends at a closing one
  obtain ⟨text, c, more, written, plainText, opens⟩ := exists_tag_of_textOf?_eq_none inside notText
  rw [written, List.append_assoc, List.cons_append, List.cons_append] at same
  obtain ⟨-, same⟩ := eq_of_stop plainText plainBody same
  exact opens (List.cons.inj same).1

theorem name_of_diagramId? {value : String} (is : element.diagramId? = some value) : element.name = "div" := by
  unfold Element.diagramId? at is
  split at is
  · split_ifs at is with parts
    exact parts.1
  · cases is

/-- The element of a place has content, which is written escaped. -/
theorem diagramId?_eq_none (special : element.isVoid = true ∨ element.isVerbatim = true) :
    element.diagramId? = none := by
  by_contra is
  obtain ⟨value, is⟩ := Option.ne_none_iff_exists'.mp is
  rw [Element.isVoid, Element.isVerbatim, name_of_diagramId? is, Bool.and_eq_true, Bool.and_eq_true] at special
  rcases special with isVoid | isVerbatim
  · exact absurd isVoid.2 (by decide)
  · exact absurd isVerbatim.2 (by decide)

/-- A diagram is written as its place. -/
theorem laid_diagram {node : NamedDiagram} (is : element.diagram? content = some node) :
    Laid (element.openTag.toList ++ ((writeAll false content).toList ++ ("</" ++ element.name ++ ">").toList))
      [placeOf node] := by
  unfold Element.diagram? at is
  split at is
  next named text isPlace isText =>
    cases is
    have readable : (placeOf ⟨escapeValue named, text⟩).IsReadable :=
      ⟨quote_not_mem_escapeValue named, bracket_not_mem_escapeText text⟩
    convert Laid.ofPlace readable using 1
    rw [toList_openTag, inner_of_diagramId? isPlace, toList_writeAll_of_textOf? isText, name_of_diagramId? isPlace, chars,
      opening, placeOf]
    simp only [List.cons_append, List.append_assoc, List.nil_append]
    rfl
  next => cases is

theorem toList_write_of_content (notVoid : element.isVoid = false) (content : List Node) :
    ((Node.element element content).write false).toList =
      element.openTag.toList ++ ((writeAll element.isVerbatim content).toList ++ ("</" ++ element.name ++ ">").toList) := by
  rw [Node.write, if_neg (by rw [notVoid]; exact Bool.false_ne_true)]
  simp only [String.toList_append, List.append_assoc]

-- Laid markup is known in front of anything, so the parts of an element can be put together one by one. Only a place is
-- read as a whole, and so is a tag that would begin one.
mutual

theorem laid_write : (node : Node) → (∀ element ∈ node.elements, element.IsRegular) → '<' ∉ node.verbatim →
    Laid (node.write false).toList (node.diagrams.map placeOf)
  | .text text, _, _ => by
    rw [toList_write_text, Node.diagrams]
    exact .ofApart (.ofNotMem (bracket_not_mem_escapeText text))
  | .element element content, regular, verbatim => by
    obtain ⟨own, inside⟩ := List.forall_mem_cons.mp regular
    have closed := Laid.ofApart (closingTag_apart own.name)
    rw [Node.verbatim] at verbatim
    rw [Node.diagrams]
    cases isVoid : element.isVoid with
    | true =>
      rw [Node.write, if_pos isVoid]
      exact laid_openTag own (diagramId?_eq_none (.inl isVoid))
    | false =>
      rw [toList_write_of_content isVoid]
      cases isVerbatim : element.isVerbatim with
      | true =>
        rw [if_pos isVerbatim] at verbatim
        have opened := laid_openTag own (diagramId?_eq_none (.inr isVerbatim))
        exact opened.append ((Laid.ofApart (.ofNotMem verbatim)).append closed)
      | false =>
        rw [isVerbatim, if_neg Bool.false_ne_true] at verbatim
        cases is : element.diagram? content with
        | some node => exact laid_diagram is
        | none =>
          have front := laid_content own inside is (laid_writeAll content inside verbatim)
          have whole := front.append closed
          rwa [List.append_nil, List.append_assoc] at whole

/-- The places of a written tree are those of its diagrams. -/
theorem laid_writeAll : (nodes : List Node) → (∀ element ∈ elementsOf nodes, element.IsRegular) →
    '<' ∉ verbatimIn nodes → Laid (writeAll false nodes).toList ((diagramsIn nodes).map placeOf)
  | [], _, _ => by
    rw [writeAll, diagramsIn]
    exact .nil
  | node :: rest, regular, verbatim => by
    obtain ⟨first, others⟩ := List.forall_mem_append.mp regular
    rw [verbatimIn, List.mem_append, not_or] at verbatim
    rw [toList_writeAll_cons, diagramsIn, List.map_append]
    exact (laid_write node first verbatim.1).append (laid_writeAll rest others verbatim.2)

end

end Html

end Galley
