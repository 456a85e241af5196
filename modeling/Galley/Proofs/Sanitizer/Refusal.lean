import Galley.Page
import Galley.Proofs.Html.Cells

/-!
# What nothing can allow

Whatever is asked for, no program gets through: neither as an element nor as an attribute. What is asked for
beside that is granted as it was asked for. There is one thing that must not be asked for, the attribute that
links get anyway.

* `Forbidden`, `ForbiddenAttribute` — what nothing can allow, said of names in capitals and small letters;
* `elementsOf_cleanAll` — clean trees hold what the rules allow and nothing else;
* `clean_refuses` — so clean markup holds nothing that is forbidden;
* `returns_unless_rel_is_asked_for` — cleaning fails for one reason only;
* `rel_stops_every_pass` — and for that it does fail.
-/

namespace Galley.Sanitizer

open Galley.Html (Attribute Element Node elementsOf elementsOf_append)

/-! ## Names -/

/-- Two names differ in capitals and small letters only. -/
def SameName (a b : String) : Prop := a.toList.map Char.toLower = b.toList.map Char.toLower

instance decidableSameName (a b : String) : Decidable (SameName a b) :=
  inferInstanceAs (Decidable (_ = _))

/-- No element can have this name. -/
def Forbidden (name : String) : Prop := ∃ tag ∈ refusedTags, SameName name tag

instance decidableForbidden (name : String) : Decidable (Forbidden name) :=
  inferInstanceAs (Decidable (∃ tag ∈ refusedTags, _))

/-- No attribute can have this name: it begins with `on`, or is one of the two that hold programs. -/
def ForbiddenAttribute (name : String) : Prop :=
  (name.toList.take 2).map Char.toLower = ['o', 'n'] ∨ ∃ other ∈ refusedAttributes, SameName name other

instance decidableForbiddenAttribute (name : String) : Decidable (ForbiddenAttribute name) :=
  inferInstanceAs (Decidable (_ ∨ _))

theorem lowerName_eq_iff {name small : String} (isSmall : small.toList.map Char.toLower = small.toList) :
    lowerName name = small ↔ SameName name small := by
  rw [SameName, isSmall, ← String.toList_inj, lowerName, String.toList_ofList, Text.lowerAscii]

theorem contains_lowerName_iff {names : List String} {name : String}
    (small : ∀ other ∈ names, other.toList.map Char.toLower = other.toList) :
    names.contains (lowerName name) = true ↔ ∃ other ∈ names, SameName name other := by
  rw [List.contains_iff_mem]
  constructor
  · exact fun member => ⟨_, member, (lowerName_eq_iff (small _ member)).mp rfl⟩
  · rintro ⟨other, member, same⟩
    rwa [(lowerName_eq_iff (small _ member)).mpr same]

theorem isRefusedTag_iff {name : String} : isRefusedTag name = true ↔ Forbidden name :=
  contains_lowerName_iff (by decide)

theorem isRefusedAttribute_iff {name : String} : isRefusedAttribute name = true ↔ ForbiddenAttribute name := by
  have starts : "on".toList.isPrefixOf (lowerName name).toList = true ↔
      (name.toList.take 2).map Char.toLower = ['o', 'n'] := by
    have lowered : (lowerName name).toList = name.toList.map Char.toLower := String.toList_ofList
    rw [lowered, List.isPrefixOf_iff_prefix, List.prefix_iff_eq_take, List.map_take, eq_comm]
    rfl
  rw [isRefusedAttribute, Bool.or_eq_true, starts, contains_lowerName_iff (by decide)]
  rfl

/-! ## What is granted -/

/-- What is asked for under a key, without what is forbidden. -/
def granted (entry : String × List String) : String × List String :=
  (entry.1, entry.2.filter fun name => ¬ ForbiddenAttribute name)

/-- Something is asked for that can be granted, and the element itself is not forbidden. -/
def IsGranted (entry : String × List String) : Prop :=
  (entry.1 = anyTag ∨ ¬ Forbidden entry.1) ∧ entry.2 ≠ []

instance decidableIsGranted (entry : String × List String) : Decidable (IsGranted entry) :=
  inferInstanceAs (Decidable (_ ∧ _))

theorem extraTags_effective (allowance : Allowance) :
    allowance.effective.extraTags = allowance.extraTags.filter fun tag => ¬ Forbidden tag := by
  refine List.filter_congr fun tag _ => ?_
  rw [Bool.eq_iff_iff, Bool.not_eq_true', ← Bool.not_eq_true, isRefusedTag_iff, decide_eq_true_eq]

theorem effectiveEntry_eq (entry : String × List String) :
    effectiveEntry entry = if IsGranted (granted entry) then some (granted entry) else none := by
  obtain ⟨tag, names⟩ := entry
  have kept : (names.filter fun name => !isRefusedAttribute name) =
      names.filter fun name => ¬ ForbiddenAttribute name := by
    refine List.filter_congr fun name _ => ?_
    rw [Bool.eq_iff_iff, Bool.not_eq_true', ← Bool.not_eq_true, isRefusedAttribute_iff, decide_eq_true_eq]
  simp only [effectiveEntry, granted, IsGranted, kept, Bool.and_eq_true, bne_iff_ne, isRefusedTag_iff,
    List.isEmpty_iff]
  by_cases general : tag = anyTag <;> by_cases forbidden : Forbidden tag <;>
    by_cases empty : (names.filter fun name => ¬ ForbiddenAttribute name) = [] <;>
    simp only [general, forbidden, empty, ne_eq, not_true_eq_false, not_false_eq_true, and_true, and_false,
      false_and, true_or, or_true, or_false, if_true, if_false]

theorem extraAttributes_effective (allowance : Allowance) :
    allowance.effective.extraAttributes =
      (allowance.extraAttributes.map granted).filter fun entry => IsGranted entry := by
  unfold Allowance.effective
  simp only
  induction allowance.extraAttributes with
  | nil => rfl
  | cons entry rest ih =>
    rw [List.filterMap_cons, effectiveEntry_eq, ih, List.map_cons, List.filter_cons]
    by_cases isGranted : IsGranted (granted entry) <;> simp [isGranted]

/-! ## What the rules allow -/

theorem mem_tags_ofAllowance {allowance : Allowance} {tag : String}
    (allowed : (Rules.ofAllowance allowance.effective).allowsTag tag = true) : ¬ Forbidden tag := by
  have usual : ∀ tag ∈ usualTags ++ pageTags, ¬ Forbidden tag := by decide
  unfold Rules.allowsTag at allowed
  rw [List.contains_iff_mem] at allowed
  rcases List.mem_append.mp allowed with known | extra
  · exact usual tag known
  · rw [extraTags_effective] at extra
    exact of_decide_eq_true (List.mem_filter.mp extra).2

/-- Nothing forbidden is among the attributes that an allowance grants. -/
theorem not_forbidden_of_mem_effective {allowance : Allowance} {entry : String × List String}
    (member : entry ∈ allowance.effective.extraAttributes) :
    (entry.1 = anyTag ∨ ¬ Forbidden entry.1) ∧ ∀ name ∈ entry.2, ¬ ForbiddenAttribute name := by
  rw [extraAttributes_effective, List.mem_filter] at member
  obtain ⟨asked, isGranted⟩ := member
  obtain ⟨original, -, rfl⟩ := List.mem_map.mp asked
  exact ⟨(of_decide_eq_true isGranted).1, fun name listed => of_decide_eq_true (List.mem_filter.mp listed).2⟩

theorem mem_everywhere_ofAllowance {allowance : Allowance} {name : String} :
    name ∈ (Rules.ofAllowance allowance.effective).everywhere ↔
      name ∈ usualEverywhere ∨
        ∃ names, (anyTag, names) ∈ allowance.effective.extraAttributes ∧ name ∈ names := by
  simp only [Rules.ofAllowance, List.partition_eq_filter_filter, List.mem_append, List.mem_flatMap,
    List.mem_filter, Prod.exists, beq_iff_eq]
  refine or_congr Iff.rfl ⟨?_, ?_⟩
  · rintro ⟨key, names, ⟨member, rfl⟩, listed⟩
    exact ⟨names, member, listed⟩
  · rintro ⟨names, member, listed⟩
    exact ⟨anyTag, names, ⟨member, rfl⟩, listed⟩

theorem mem_attributes_ofAllowance {allowance : Allowance} {entry : String × List String} :
    entry ∈ (Rules.ofAllowance allowance.effective).attributes ↔
      entry ∈ usualAttributes ∨ (entry ∈ allowance.effective.extraAttributes ∧ entry.1 ≠ anyTag) := by
  obtain ⟨key, names⟩ := entry
  simp only [Rules.ofAllowance, List.partition_eq_filter_filter, List.mem_append, List.mem_filter,
    Function.comp_apply, Bool.not_eq_true', beq_eq_false_iff_ne]

theorem allowsAttribute_iff {rules : Rules} {tag name : String} :
    rules.allowsAttribute tag name = true ↔
      name ∈ rules.everywhere ∨ ∃ names, (tag, names) ∈ rules.attributes ∧ name ∈ names := by
  simp only [Rules.allowsAttribute, Bool.or_eq_true, List.contains_iff_mem, List.any_eq_true, Prod.exists,
    Bool.and_eq_true, beq_iff_eq]
  refine or_congr Iff.rfl ⟨?_, ?_⟩
  · rintro ⟨key, names, member, rfl, listed⟩
    exact ⟨names, member, listed⟩
  · rintro ⟨names, member, listed⟩
    exact ⟨tag, names, member, rfl, listed⟩

theorem not_forbidden_of_allowsAttribute {allowance : Allowance} {tag name : String}
    (allowed : (Rules.ofAllowance allowance.effective).allowsAttribute tag name = true) :
    ¬ ForbiddenAttribute name := by
  have everywhere : ∀ name ∈ usualEverywhere, ¬ ForbiddenAttribute name := by decide
  have usual : ∀ entry ∈ usualAttributes, ∀ name ∈ entry.2, ¬ ForbiddenAttribute name := by decide
  rcases allowsAttribute_iff.mp allowed with general | ⟨names, special, listed⟩
  · rcases mem_everywhere_ofAllowance.mp general with known | ⟨names, extra, listed⟩
    · exact everywhere name known
    · exact (not_forbidden_of_mem_effective extra).2 name listed
  · rcases mem_attributes_ofAllowance.mp special with known | ⟨extra, -⟩
    · exact usual _ known name listed
    · exact (not_forbidden_of_mem_effective extra).2 name listed

/-! ## Clean trees -/

/-- An element and its attributes are allowed. Links have one attribute more. -/
def Rules.Allows (rules : Rules) (element : Element) : Prop :=
  rules.allowsTag element.name = true ∧
    ∀ attr ∈ element.attributes, rules.allowsAttribute element.name attr.name = true ∨ attr = linkRel

theorem allows_cleanElement {rules : Rules} {element : Element}
    (allowed : rules.allowsTag element.name = true) : rules.Allows (cleanElement rules element) := by
  refine ⟨allowed, fun attr member => ?_⟩
  have kept : attr ∈ element.attributes.filter (keepsAttribute rules element.name) →
      rules.allowsAttribute element.name attr.name = true := fun listed => by
    have keeps := (List.mem_filter.mp listed).2
    rw [keepsAttribute, Bool.and_eq_true] at keeps
    exact keeps.1
  simp only [cleanElement] at member
  split at member
  · rcases List.mem_append.mp member with own | added
    · exact Or.inl (kept own)
    · exact Or.inr (List.mem_singleton.mp added)
  · exact Or.inl (kept member)

mutual

theorem elementsOf_cleanNode {rules : Rules} {parent : Element} (node : Node) :
    ∀ element ∈ elementsOf (cleanNode rules parent node), rules.Allows element := by
  cases node with
  | text text =>
    intro element member
    simp [cleanNode, elementsOf, Node.elements] at member
  | element own content =>
    rw [cleanNode]
    split
    · intro element member
      cases member
    · split
      next allowed =>
        intro element member
        rw [elementsOf, elementsOf, List.append_nil, Node.elements] at member
        rcases List.mem_cons.mp member with rfl | inside
        · exact allows_cleanElement allowed
        · exact elementsOf_cleanAll content element inside
      next => exact elementsOf_cleanAll content

/-- Clean trees hold only what the rules allow. -/
theorem elementsOf_cleanAll {rules : Rules} {parent : Element} (nodes : List Node) :
    ∀ element ∈ elementsOf (cleanAll rules parent nodes), rules.Allows element := by
  cases nodes with
  | nil =>
    intro element member
    cases member
  | cons node rest =>
    intro element member
    rw [cleanAll, elementsOf_append] at member
    rcases List.mem_append.mp member with first | later
    · exact elementsOf_cleanNode node element first
    · exact elementsOf_cleanAll rest element later

end

/-- The trees that stay of some markup. -/
def cleanTrees (allowance : Allowance) (markup : String) : List Node :=
  cleanAll (Rules.ofAllowance allowance.effective) rootElement (Html.parseFragment markup)

/-- Whatever is asked for, clean markup has no forbidden element and no forbidden attribute. Of what is asked
    for only that is refused, and all else is granted in its order; a key with nothing left is dropped. -/
theorem clean_refuses (allowance : Allowance) (markup : String) :
    (∀ output, clean allowance markup = .ok output →
      output = Html.writeAll false (cleanTrees allowance markup) ∧
        ∀ element ∈ elementsOf (cleanTrees allowance markup),
          ¬ Forbidden element.name ∧ ∀ attr ∈ element.attributes, ¬ ForbiddenAttribute attr.name) ∧
    allowance.effective.extraTags = (allowance.extraTags.filter fun tag => ¬ Forbidden tag) ∧
    allowance.effective.extraAttributes =
      (allowance.extraAttributes.map granted).filter fun entry => IsGranted entry := by
  refine ⟨fun output cleaned => ⟨?_, fun element member => ?_⟩, extraTags_effective allowance,
    extraAttributes_effective allowance⟩
  · unfold clean at cleaned
    simp only at cleaned
    split at cleaned
    · exact (Except.ok.inj cleaned).symm
    · cases cleaned
  · obtain ⟨tag, attributes⟩ := elementsOf_cleanAll _ element member
    refine ⟨mem_tags_ofAllowance tag, fun attr listed => ?_⟩
    rcases attributes attr listed with allowed | rfl
    · exact not_forbidden_of_allowsAttribute allowed
    · decide

/-- Programs that are asked for in capitals are refused as well, and the element beside them is granted. -/
theorem program_is_refused :
    let allowance : Allowance :=
      ⟨["script", "STYLE", "aside"], [("*", ["OnClick"]), ("img", ["onerror", "data-x"]), ("Object", ["x"])]⟩
    let markup := "<script>x()</script><img data-x=\"1\" onerror=\"x()\">"
    clean allowance markup = .ok "<img data-x=\"1\">" ∧
      (∀ element ∈ elementsOf (cleanTrees allowance markup),
        ¬ Forbidden element.name ∧ ∀ attr ∈ element.attributes, ¬ ForbiddenAttribute attr.name) ∧
      allowance.effective = ⟨["aside"], [("img", ["data-x"])]⟩ := by
  intro allowance markup
  have cleaned : clean allowance markup = .ok "<img data-x=\"1\">" := by
    have rules : (Rules.ofAllowance allowance.effective).leavesRel = true := by decide
    have written : Html.writeAll false (cleanTrees allowance markup) = "<img data-x=\"1\">" := by decide +kernel
    rw [clean, if_pos rules]
    exact congrArg Except.ok written
  exact ⟨cleaned, ((clean_refuses allowance markup).1 _ cleaned).2, by decide⟩

/-! ## The one failure -/

/-- The attribute of links is asked for, on links or on every element. -/
def Allowance.AsksForRel (allowance : Allowance) : Prop :=
  ∃ names, (("a", names) ∈ allowance.extraAttributes ∨ (anyTag, names) ∈ allowance.extraAttributes) ∧
    Rules.relName ∈ names

/-- An attribute that is not forbidden is granted where it is asked for, on an element that is not. -/
theorem granted_iff {allowance : Allowance} {tag name : String} (tagFree : tag = anyTag ∨ ¬ Forbidden tag)
    (nameFree : ¬ ForbiddenAttribute name) :
    (∃ names, (tag, names) ∈ allowance.effective.extraAttributes ∧ name ∈ names) ↔
      ∃ names, (tag, names) ∈ allowance.extraAttributes ∧ name ∈ names := by
  simp only [extraAttributes_effective, List.mem_filter, List.mem_map, decide_eq_true_eq]
  constructor
  · rintro ⟨names, ⟨⟨⟨key, asked⟩, member, same⟩, -⟩, listed⟩
    obtain ⟨rfl, rfl⟩ := Prod.mk.inj same
    exact ⟨asked, member, (List.mem_filter.mp listed).1⟩
  · rintro ⟨asked, member, listed⟩
    have kept : name ∈ asked.filter fun name => ¬ ForbiddenAttribute name :=
      List.mem_filter.mpr ⟨listed, decide_eq_true nameFree⟩
    exact ⟨_, ⟨⟨(tag, asked), member, rfl⟩, tagFree, List.ne_nil_of_mem kept⟩, kept⟩

theorem leavesRel_iff {allowance : Allowance} :
    (Rules.ofAllowance allowance.effective).leavesRel = true ↔ ¬ allowance.AsksForRel := by
  have everywhere : Rules.relName ∉ usualEverywhere := by decide
  have usual : ¬ ∃ names, ("a", names) ∈ usualAttributes ∧ Rules.relName ∈ names := by
    rintro ⟨names, member, listed⟩
    have all : ∀ entry ∈ usualAttributes, Rules.relName ∉ entry.2 := by decide
    exact all _ member listed
  have general := @granted_iff allowance anyTag Rules.relName (Or.inl rfl) (by decide)
  have special := @granted_iff allowance "a" Rules.relName (Or.inr (by decide)) (by decide)
  have links := @allowsAttribute_iff (Rules.ofAllowance allowance.effective) "a" Rules.relName
  have leaves : (Rules.ofAllowance allowance.effective).leavesRel =
      !(Rules.ofAllowance allowance.effective).allowsAttribute "a" Rules.relName := by
    rw [Rules.leavesRel, Rules.allowsAttribute, Bool.not_or]
  rw [leaves, Bool.not_eq_true', ← Bool.not_eq_true, links, mem_everywhere_ofAllowance, general]
  refine not_congr ?_
  simp only [mem_attributes_ofAllowance, everywhere, false_or, Allowance.AsksForRel]
  constructor
  · rintro (⟨names, member, listed⟩ | ⟨names, known | ⟨member, -⟩, listed⟩)
    · exact ⟨names, Or.inr member, listed⟩
    · exact absurd ⟨names, known, listed⟩ usual
    · obtain ⟨asked, member, listed⟩ := special.mp ⟨names, member, listed⟩
      exact ⟨asked, Or.inl member, listed⟩
  · rintro ⟨names, member | member, listed⟩
    · obtain ⟨kept, member, listed⟩ := special.mpr ⟨names, member, listed⟩
      exact Or.inr ⟨kept, Or.inr ⟨member, by decide⟩, listed⟩
    · exact Or.inl ⟨names, member, listed⟩

theorem clean_returns_iff {allowance : Allowance} {markup : String} :
    (∃ output, clean allowance markup = .ok output) ↔ ¬ allowance.AsksForRel := by
  rw [← leavesRel_iff, clean]
  by_cases leaves : (Rules.ofAllowance allowance.effective).leavesRel = true <;> simp [leaves]

/-- The rules never allow an element of which nothing stays, nor an attribute of it. -/
theorem not_allowed_of_dropped {allowance : Allowance} {tag : String} (dropped : tag ∈ droppedTags) :
    (Rules.ofAllowance allowance.effective).allowsTag tag = false ∧
      ∀ entry ∈ (Rules.ofAllowance allowance.effective).attributes, entry.1 ≠ tag := by
  have forbidden : ∀ tag ∈ droppedTags, Forbidden tag := by decide
  have usual : ∀ entry ∈ usualAttributes, ∀ tag ∈ droppedTags, entry.1 ≠ tag := by decide
  refine ⟨Bool.eq_false_iff.mpr fun allowed => mem_tags_ofAllowance allowed (forbidden tag dropped),
    fun entry member same => ?_⟩
  rcases mem_attributes_ofAllowance.mp member with known | ⟨extra, special⟩
  · exact usual entry known tag dropped same
  · rcases (not_forbidden_of_mem_effective extra).1 with general | free
    · exact special general
    · exact free (same ▸ forbidden tag dropped)

/-- A pass gives a page if its markup can be made clean. -/
theorem make_returns_iff {maker : PageMaker} {source : String} :
    (∃ made, maker.make source = .ok made) ↔
      ∃ output, clean maker.context.options.sanitizer (PageMaker.assembled maker.context (.ofText source)
        (convert (.ofText source) maker.context.registry maker.passIds).html
        (PageMaker.contentsOf (.ofText source) source)) = .ok output := by
  simp only [PageMaker.make]
  cases clean maker.context.options.sanitizer (PageMaker.assembled maker.context (.ofText source)
      (convert (.ofText source) maker.context.registry maker.passIds).html
      (PageMaker.contentsOf (.ofText source) source)) with
  | error failure => simp [bind, Except.bind]
  | ok output => simp [bind, Except.bind, pure, Except.pure]

/-- Cleaning fails for one reason only, and so does a pass: the attribute that links get anyway is asked for.
    What the rules say of elements of which nothing stays is never in the way. -/
theorem returns_unless_rel_is_asked_for (allowance : Allowance) (markup : String) (maker : PageMaker)
    (source : String) :
    (∀ tag ∈ droppedTags, (Rules.ofAllowance allowance.effective).allowsTag tag = false ∧
      ∀ entry ∈ (Rules.ofAllowance allowance.effective).attributes, entry.1 ≠ tag) ∧
    ((∃ output, clean allowance markup = .ok output) ↔ ¬ allowance.AsksForRel) ∧
    ((∃ made, maker.make source = .ok made) ↔ ¬ maker.context.options.sanitizer.AsksForRel) := by
  refine ⟨fun _ => not_allowed_of_dropped, clean_returns_iff, ?_⟩
  rw [make_returns_iff, clean_returns_iff]

/-- An allowance of the attribute on links stops every pass, whatever the document is. -/
theorem rel_stops_every_pass :
    ¬ (∃ output, clean ⟨[], [("a", ["rel"])]⟩ "<p>x</p>" = .ok output) ∧
      ¬ (∃ made, (PageMaker.ofContext (.ofOptions ⟨false, usualDiagramLanguage, .sequential,
        ⟨[], [("a", ["rel"])]⟩⟩)).make "x" = .ok made) := by
  have asks : Allowance.AsksForRel ⟨[], [("a", ["rel"])]⟩ := ⟨["rel"], Or.inl (by decide), by decide⟩
  have stopped : clean ⟨[], [("a", ["rel"])]⟩ = fun _ => .error .allowsRel := rfl
  refine ⟨fun returned => clean_returns_iff.mp returned asks, ?_⟩
  rintro ⟨made, returned⟩
  simp [PageMaker.make, PageMaker.ofContext, PageContext.ofOptions, stopped, bind, Except.bind] at returned

end Galley.Sanitizer
