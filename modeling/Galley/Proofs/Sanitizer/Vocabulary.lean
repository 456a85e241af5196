import Galley.Proofs.Html.Tokens
import Galley.Proofs.Markdown.Line
import Galley.Sanitizer.Clean

/-!
# What the rules leave alone

Trees that say only what the rules allow are clean already. Cleaning changes nothing in them but the links.

* `Rules.vocabulary` — what the rules allow, as a vocabulary;
* `withRel`, `cleanAll_of_admits` — what cleaning does to trees that keep to it;
* `written`, `admits_of_written` — what pages are written with, all of which is allowed;
* `isSafeAddress_fragment` — addresses within the page.
-/

namespace Galley.Html

mutual

/-- A tree with its elements changed. -/
def Node.mapElements (f : Element → Element) : Node → Node
  | .text text => .text text
  | .element element content => .element (f element) (mapAllElements f content)

/-- Some trees with their elements changed. -/
def mapAllElements (f : Element → Element) : List Node → List Node
  | [] => []
  | node :: rest => node.mapElements f :: mapAllElements f rest

end

mutual

theorem Node.elements_mapElements (f : Element → Element) :
    (node : Node) → (node.mapElements f).elements = node.elements.map f
  | .text _ => rfl
  | .element element content => by
    rw [Node.mapElements, Node.elements, Node.elements, List.map_cons, elementsOf_mapAllElements f content]

/-- A change of elements changes each of them, and no tree is left out. -/
theorem elementsOf_mapAllElements (f : Element → Element) :
    (nodes : List Node) → elementsOf (mapAllElements f nodes) = (elementsOf nodes).map f
  | [] => rfl
  | node :: rest => by
    rw [mapAllElements, elementsOf, elementsOf, List.map_append, Node.elements_mapElements f node,
      elementsOf_mapAllElements f rest]

end

end Galley.Html

namespace Galley.Sanitizer

open Galley.Html (Attribute Element Node Vocabulary elementsOf mapAllElements valueOf)

variable {rules : Rules}

/-- What the rules leave as it is. -/
def Rules.vocabulary (rules : Rules) : Vocabulary where
  names name := rules.allowsTag name && isHtmlName name && !droppedTags.contains name
  free tag name := rules.allowsAttribute tag name && !isAddressAttribute tag name
  values tag name value := rules.allowsAttribute tag name && isSafeAddress value

/-- An element, with the attribute that links get if it is one. -/
def withRel (element : Element) : Element :=
  if element.name == "a" then { element with attributes := element.attributes ++ [linkRel] } else element

theorem keepsAttribute_of_allows {tag : String} {attr : Attribute} (allows : rules.vocabulary.Allows tag attr) :
    keepsAttribute rules tag attr = true := by
  rw [keepsAttribute]
  rcases allows with free | listed
  · obtain ⟨allowed, other⟩ := Bool.and_eq_true_iff.mp free
    rw [allowed, other]
    rfl
  · obtain ⟨allowed, safe⟩ := Bool.and_eq_true_iff.mp listed
    rw [allowed, safe, Bool.or_true]
    rfl

theorem cleanElement_of_admits {element : Element} (admits : rules.vocabulary.Admits element) :
    cleanElement rules element = withRel element := by
  have kept : element.attributes.filter (keepsAttribute rules element.name) = element.attributes :=
    List.filter_eq_self.mpr fun attr member => keepsAttribute_of_allows (admits.attributes attr member)
  rw [cleanElement, withRel, kept]
  split <;> rfl

mutual

theorem cleanNode_of_admits {parent : Element} (inHtml : parent.space = .html) : (node : Node) →
    (∀ element ∈ node.elements, rules.vocabulary.Admits element) →
      cleanNode rules parent node = [node.mapElements withRel]
  | .text _, _ => rfl
  | .element element content, admits => by
    obtain ⟨own, inner⟩ := List.forall_mem_cons.mp admits
    have name := own.name
    simp only [Rules.vocabulary, Bool.and_eq_true, Bool.not_eq_true'] at name
    obtain ⟨⟨allowed, isHtml⟩, stays⟩ := name
    have staysIn : staysIn parent element = true := by
      rw [staysIn, inHtml, own.space]
      simpa using isHtml
    rw [cleanNode, stays, staysIn, allowed, cleanElement_of_admits own, cleanAll_of_admits own.space content inner]
    rfl

/-- Trees that say only what the rules allow are clean, but for the attribute that links get. -/
theorem cleanAll_of_admits {parent : Element} (inHtml : parent.space = .html) : (nodes : List Node) →
    (∀ element ∈ elementsOf nodes, rules.vocabulary.Admits element) →
      cleanAll rules parent nodes = mapAllElements withRel nodes
  | [], _ => rfl
  | node :: rest, admits => by
    obtain ⟨first, others⟩ := List.forall_mem_append.mp admits
    rw [cleanAll, cleanNode_of_admits inHtml node first, cleanAll_of_admits inHtml rest others]
    rfl

end

/-! ## What pages are written with -/

/-- The tags that pages are written with, and those that are implied by them. -/
def writtenTags : List String :=
  ["p", "h1", "h2", "h3", "h4", "h5", "h6", "blockquote", "pre", "code", "ul", "ol", "li", "table", "thead", "tbody",
   "colgroup", "tr", "th", "td", "em", "strong", "del", "a", "img", "br", "hr", "input", "sup", "section", "div", "span",
   "nav"]

/-- The attributes that pages are written with, by their elements. -/
def writtenAttributes : List (String × String) :=
  [("h1", "id"), ("h2", "id"), ("h3", "id"), ("h4", "id"), ("h5", "id"), ("h6", "id"), ("ol", "start"), ("a", "title"),
   ("a", "id"), ("a", "class"), ("img", "alt"), ("img", "title"), ("input", "disabled"), ("input", "type"),
   ("input", "checked"), ("li", "class"), ("li", "id"), ("sup", "class"), ("section", "class"), ("code", "class"),
   ("div", "class"), ("div", "id"), ("span", "class"), ("span", "title"), ("nav", "class")]

/-- The addresses among them. -/
def writtenAddresses : List (String × String) := [("a", "href"), ("img", "src")]

/-- The vocabulary of pages. -/
def written : Vocabulary where
  names name := writtenTags.contains name
  free tag name := writtenAttributes.contains (tag, name)
  values tag name value := writtenAddresses.contains (tag, name) && isSafeAddress value

/-- The rules without anything that is asked for. -/
def pageRules : Rules := .ofAllowance Allowance.none.effective

theorem ordinary_written : Html.Ordinary written.Admits where
  implied name implied := by
    have known : ∀ name ∈ Html.impliedNames, written.names name = true := by decide
    exact ⟨rfl, known name implied, fun _ absent => absurd absent List.not_mem_nil⟩
  calm element admits switching := by
    have others : ∀ name ∈ Html.switchingNames, written.names name = false := by decide
    have name := admits.name
    rw [others element.name switching] at name
    cases name

/-- All that pages are written with is allowed. -/
theorem admits_of_written {element : Element} (admits : written.Admits element) :
    pageRules.vocabulary.Admits element := by
  have tags : ∀ name ∈ writtenTags, pageRules.vocabulary.names name = true := by decide
  have attributes : ∀ pair ∈ writtenAttributes, pageRules.vocabulary.free pair.1 pair.2 = true := by decide
  have addresses : ∀ pair ∈ writtenAddresses, pageRules.allowsAttribute pair.1 pair.2 = true := by decide
  refine ⟨admits.space, tags _ (List.contains_iff_mem.mp admits.name), fun attr member => ?_⟩
  rcases admits.attributes attr member with free | listed
  · exact .inl (attributes (_, _) (List.contains_iff_mem.mp free))
  · obtain ⟨known, safe⟩ := Bool.and_eq_true_iff.mp listed
    have allowed := addresses (_, _) (List.contains_iff_mem.mp known)
    exact .inr (Bool.and_eq_true_iff.mpr ⟨allowed, safe⟩)

/-! ## Addresses within the page -/

/-- The number sign at the start of an address stays there. -/
theorem cleanAddress_fragment (cs : List Char) : ∃ rest, cleanAddress ('#' :: cs) = '#' :: rest := by
  have stays : isControlOrSpace '#' = false := by decide
  obtain ⟨tail, whole, blank⟩ := Markdown.dropEndWhile_spec isControlOrSpace ('#' :: cs)
  rw [cleanAddress, List.dropWhile_cons_of_neg (by rw [stays]; decide)]
  cases front : Text.dropEndWhile isControlOrSpace ('#' :: cs) with
  | nil =>
    rw [front, List.nil_append] at whole
    exact absurd (blank '#' (whole ▸ List.mem_cons_self)) (by rw [stays]; decide)
  | cons c more =>
    rw [front, List.cons_append] at whole
    obtain rfl := (List.cons.inj whole).1
    exact ⟨more.filter _, List.filter_cons_of_pos (by decide)⟩

/-- What begins with a number sign is no address of another page. -/
theorem isSafeAddress_fragment (cs : List Char) : isSafeAddress (.ofList ('#' :: cs)) = true := by
  obtain ⟨rest, cleaned⟩ := cleanAddress_fragment cs
  rw [isSafeAddress, String.toList_ofList, cleaned]
  rfl

end Galley.Sanitizer
