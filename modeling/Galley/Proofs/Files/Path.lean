import Galley.Files.Path
import Mathlib

/-!
# Names along a path

What joining does to the names that a path leads along: a name put into a directory comes behind those of the
directory, and the path to the directory around it leads where the directory does.

* `IsNormal` — a name that leads one step down;
* `names_append`, `names_join` — the names along a longer path;
* `names_ofNames` — a path made of names leads along them;
* `isSame_parent_join` — the directory around a joined path.
-/

namespace Galley.Files

variable {front back name : List Char} {path : String} {along : List String}

/-! ## Cuts at separators -/

theorem splitNames_ne_nil (cs : List Char) : splitNames cs ≠ [] := by
  cases cs with
  | nil => simp [splitNames]
  | cons c rest =>
    simp only [splitNames]
    split
    · simp
    · split <;> simp

theorem splitNames_cons_of_ne {c : Char} (other : c ≠ separator) {rest : List (List Char)}
    (cut : splitNames back = name :: rest) : splitNames (c :: back) = (c :: name) :: rest := by
  simp [splitNames, other, cut]

theorem splitNames_of_plain (plain : separator ∉ name) : splitNames name = [name] := by
  induction name with
  | nil => rfl
  | cons c rest ih =>
    simp only [List.mem_cons, not_or] at plain
    exact splitNames_cons_of_ne (Ne.symm plain.1) (ih plain.2)

theorem splitNames_append (front back : List Char) :
    splitNames (front ++ separator :: back) = splitNames front ++ splitNames back := by
  induction front with
  | nil => simp [splitNames]
  | cons c rest ih =>
    by_cases isCut : c = separator
    · simp [splitNames, isCut, ih]
    · obtain ⟨first, more, cut⟩ := List.exists_cons_of_ne_nil (splitNames_ne_nil rest)
      rw [cut, List.cons_append] at ih
      simp [splitNames_cons_of_ne isCut cut, splitNames_cons_of_ne isCut ih]

theorem allNames_ne_nil (path : String) : allNames path ≠ [] := by
  simp [allNames, splitNames_ne_nil]

theorem allNames_of_plain {name : String} (plain : separator ∉ name.toList) : allNames name = [name] := by
  simp [allNames, splitNames_of_plain plain]

theorem allNames_append (outer inner : String) :
    allNames (outer ++ "/" ++ inner) = allNames outer ++ allNames inner := by
  have cut := splitNames_append outer.toList inner.toList
  simp only [allNames, String.toList_append, List.append_assoc, ← List.map_append]
  rw [← cut]
  rfl

/-! ## Longer paths -/

theorem names_of_empty (cut : allNames path = "" :: along) : names path = along.filter leads := by
  simp [names, cut, leads]

/-- The first name of a path counts although it is a dot. -/
theorem names_of_filled {first : String} (filled : first ≠ "") (cut : allNames path = first :: along) :
    names path = first :: along.filter leads := by
  unfold names
  rw [cut]
  by_cases isDot : first = "."
  · simp [isDot]
  · have counts : leads first = true := by simp [leads, filled, isDot]
    simp [isDot, List.filter_cons_of_pos counts]

/-- So all further names are told apart by `leads`. -/
theorem names_append {longer : String} (whole : allNames longer = allNames path ++ along) :
    names longer = names path ++ along.filter leads := by
  obtain ⟨first, more, cut⟩ := List.exists_cons_of_ne_nil (allNames_ne_nil path)
  rw [cut, List.cons_append] at whole
  by_cases empty : first = ""
  · subst empty
    rw [names_of_empty cut, names_of_empty whole, List.filter_append]
  · rw [names_of_filled empty cut, names_of_filled empty whole, List.filter_append, List.cons_append]

theorem isAbsolute_iff : isAbsolute path = true ↔ ∃ rest, path.toList = separator :: rest := by
  simp only [isAbsolute, beq_iff_eq, List.head?_eq_some_iff]

theorem isAbsolute_append (filled : path ≠ "") (rest : String) : isAbsolute (path ++ rest) = isAbsolute path := by
  have some : path.toList ≠ [] := by simpa using filled
  simp [isAbsolute, String.toList_append, List.head?_append_of_ne_nil _ some]

/-- A name that leads one step down from where it stands: neither to the same place nor up, and in one piece. -/
structure IsNormal (name : String) : Prop where
  filled : name ≠ ""
  notHere : name ≠ "."
  notUp : name ≠ ".."
  plain : separator ∉ name.toList

theorem IsNormal.leads {name : String} (normal : IsNormal name) : leads name = true := by
  simp [Files.leads, normal.filled, normal.notHere]

theorem IsNormal.isAbsolute {name : String} (normal : IsNormal name) : isAbsolute name = false := by
  rw [← Bool.not_eq_true, isAbsolute_iff]
  rintro ⟨rest, begins⟩
  exact normal.plain (begins ▸ List.mem_cons_self)

/-- The three ways in which a name is put behind a directory. -/
theorem join_cases (directory : String) {name : String} (normal : IsNormal name) :
    (directory = "" ∧ join directory name = name) ∨
      (∃ outer, directory = outer ++ "/" ∧ join directory name = outer ++ "/" ++ name) ∨
      (directory ≠ "" ∧ join directory name = directory ++ "/" ++ name) := by
  unfold join
  rw [normal.isAbsolute, Bool.false_or]
  by_cases empty : directory = ""
  · exact .inl ⟨empty, by simp [empty]⟩
  · rw [if_neg (by simpa using empty)]
    split
    next ends =>
      obtain ⟨front, cut⟩ := List.getLast?_eq_some_iff.mp (beq_iff_eq.mp ends)
      have whole : directory = String.ofList front ++ "/" := by
        rw [← String.toList_inj, cut, String.toList_append, String.toList_ofList]
        rfl
      exact .inr (.inl ⟨.ofList front, whole, by rw [← whole]⟩)
    next => exact .inr (.inr ⟨empty, rfl⟩)

/-- A name put into a directory is one more name along the path, and nothing else changes. -/
theorem names_join (directory : String) {name : String} (normal : IsNormal name) :
    names (join directory name) = names directory ++ [name] ∧
      isAbsolute (join directory name) = isAbsolute directory := by
  have single : [name].filter Files.leads = [name] := by simp [normal.leads]
  have inner : allNames name = [name] := allNames_of_plain normal.plain
  rcases join_cases directory normal with ⟨rfl, joined⟩ | ⟨outer, rfl, joined⟩ | ⟨filled, joined⟩
  · have nowhere : names "" = [] ∧ isAbsolute "" = false := by decide
    rw [joined, names_of_filled normal.filled inner, normal.isAbsolute, nowhere.1, nowhere.2]
    exact ⟨rfl, rfl⟩
  · -- The directory ends with an empty name, which the new one replaces.
    have shorter : names (outer ++ "/") = names outer := by
      have whole : allNames (outer ++ "/") = allNames outer ++ [""] := by
        have empty : allNames "" = [""] := by decide
        rw [← empty, ← allNames_append, String.append_empty]
      simpa [Files.leads] using names_append whole
    have longer : allNames (outer ++ "/" ++ name) = allNames outer ++ [name] := by rw [allNames_append, inner]
    rw [joined, names_append longer, shorter, single]
    exact ⟨rfl, isAbsolute_append (by simp) name⟩
  · have longer : allNames (directory ++ "/" ++ name) = allNames directory ++ [name] := by rw [allNames_append, inner]
    rw [joined, names_append longer, single, String.append_assoc]
    exact ⟨rfl, isAbsolute_append filled _⟩

/-! ## The directory around a path -/

theorem plain_of_mem_splitNames (cs : List Char) : ∀ name ∈ splitNames cs, separator ∉ name := by
  induction cs with
  | nil => simp [splitNames]
  | cons c rest ih =>
    obtain ⟨first, more, cut⟩ := List.exists_cons_of_ne_nil (splitNames_ne_nil rest)
    by_cases isCut : c = separator
    · simpa [splitNames, isCut] using ih
    · rw [cut, List.forall_mem_cons] at ih
      rw [splitNames_cons_of_ne isCut cut, List.forall_mem_cons]
      exact ⟨by simpa [Ne.symm isCut] using ih.1, ih.2⟩

theorem plain_of_mem_allNames {name : String} (member : name ∈ allNames path) : separator ∉ name.toList := by
  obtain ⟨cs, inside, rfl⟩ := List.mem_map.mp member
  simpa using plain_of_mem_splitNames _ cs inside

/-- A path is one from the root if an empty name stands in front of others. -/
theorem isAbsolute_iff_allNames : isAbsolute path = true ↔ ∃ rest, rest ≠ [] ∧ allNames path = "" :: rest := by
  unfold isAbsolute allNames
  cases path.toList with
  | nil => simp [splitNames]
  | cons c rest =>
    by_cases isCut : c = separator
    · simp [splitNames, isCut, splitNames_ne_nil]
    · obtain ⟨first, more, cut⟩ := List.exists_cons_of_ne_nil (splitNames_ne_nil rest)
      simp [splitNames_cons_of_ne isCut cut, isCut]

theorem allNames_intercalate (some : along ≠ []) (plain : ∀ name ∈ along, separator ∉ name.toList) :
    allNames (String.intercalate "/" along) = along := by
  induction along with
  | nil => exact absurd rfl some
  | cons first rest ih =>
    rw [List.forall_mem_cons] at plain
    cases rest with
    | nil => simpa using allNames_of_plain plain.1
    | cons second more =>
      rw [String.intercalate_cons_cons, allNames_append, allNames_of_plain plain.1, ih (by simp) plain.2]
      rfl

/-- A path made of the names along another one leads along them, and from the root if the other does. -/
theorem names_ofNames (path : String) :
    names (ofNames (isAbsolute path) (names path)) = names path ∧
      isAbsolute (ofNames (isAbsolute path) (names path)) = isAbsolute path := by
  have twice (rest : List String) : (rest.filter leads).filter leads = rest.filter leads := by simp
  have plain {rest : List String} (inside : ∀ name ∈ rest, name ∈ allNames path) :
      ∀ name ∈ rest, separator ∉ name.toList := fun name member => plain_of_mem_allNames (inside name member)
  cases rooted : isAbsolute path with
  | true =>
    obtain ⟨rest, -, cut⟩ := isAbsolute_iff_allNames.mp rooted
    rw [names_of_empty cut]
    by_cases nothing : rest.filter leads = []
    · rw [nothing]
      decide
    · have inside : ∀ name ∈ rest.filter leads, name ∈ allNames path := fun name member => by
        rw [cut]
        exact List.mem_cons_of_mem _ (List.mem_of_mem_filter member)
      have whole : allNames (ofNames true (rest.filter leads)) = "" :: rest.filter leads := by
        have joined := allNames_append "" (String.intercalate "/" (rest.filter leads))
        rwa [allNames_intercalate nothing (plain inside)] at joined
      exact ⟨by rw [names_of_empty whole, twice], isAbsolute_iff_allNames.mpr ⟨_, nothing, whole⟩⟩
  | false =>
    obtain ⟨first, rest, cut⟩ := List.exists_cons_of_ne_nil (allNames_ne_nil path)
    by_cases empty : first = ""
    · -- An empty first name that does not stand for the root is the whole path.
      subst empty
      have alone : rest = [] := by
        by_contra some
        rw [isAbsolute_iff_allNames.mpr ⟨rest, some, cut⟩] at rooted
        cases rooted
      rw [names_of_empty cut, alone]
      decide
    · have inside : ∀ name ∈ first :: rest.filter leads, name ∈ allNames path := by
        rw [cut]
        exact fun name member => (List.cons_sublist_cons.mpr List.filter_sublist).mem member
      have whole : allNames (ofNames false (first :: rest.filter leads)) = first :: rest.filter leads := by
        simpa [ofNames] using allNames_intercalate (by simp) (plain inside)
      rw [names_of_filled empty cut]
      refine ⟨by rw [names_of_filled empty whole, twice], ?_⟩
      rw [← Bool.not_eq_true, isAbsolute_iff_allNames]
      rintro ⟨_, -, other⟩
      exact empty (List.cons.inj (whole.symm.trans other)).1

/-- The directory around a path into which a name was put is the one that it was put into. -/
theorem isSame_parent_join (directory : String) {name : String} (normal : IsNormal name) :
    ∃ outer, parent? (join directory name) = some outer ∧ isSame outer directory = true := by
  obtain ⟨along, rooted⟩ := names_join directory normal
  obtain ⟨same, rooted'⟩ := names_ofNames directory
  refine ⟨ofNames (isAbsolute directory) (names directory), ?_, ?_⟩
  · simp [parent?, along, rooted]
  · simp [isSame, same, rooted']

end Galley.Files
