import Galley.Command.Run
import Galley.Proofs.Files.Path
import Galley.Proofs.Heading.Titles

/-!
# Pages stay in their directory

A page that goes into a directory is named after its document, and what stands in the document is whatever its author
wrote. Its name is nevertheless one more name along the path of the directory, and a file of that name lies in there.

* `hostileChars`, `NamesFile` — the characters that are refused in file names, and titles that files can have;
* `namesFile_safeTitle`, `namesFile_titleOf` — every title is one;
* `isNormal_of_namesFile` — with an ending behind it, it leads one step down;
* `page_stays_in_directory` — so each page goes into its directory.
-/

namespace Galley.Heading

open Galley.Text (isBlank)

/-! ## Titles of files -/

/-- The characters that are refused in file names. -/
def hostileChars : List Char := ['\\', '/', ':', '*', '?', '\x22', '<', '>', '|', '\n', '\r', '\t']

theorem isHostile_iff {c : Char} : isHostile c = true ↔ c ∈ hostileChars := by
  simp only [isHostile, hostileChars, Bool.or_eq_true, beq_iff_eq, List.mem_cons, List.not_mem_nil, or_false, or_assoc]

/-- A title that a file can have: it is not empty, begins and ends with no blank, and nothing in it is refused. -/
structure NamesFile (title : List Char) : Prop where
  filled : title ≠ []
  begins : ∀ c, title.head? = some c → isBlank c = false
  ends : ∀ c, title.getLast? = some c → isBlank c = false
  harmless : ∀ c ∈ title, c ∉ hostileChars

theorem namesFile_untitled : NamesFile untitled.toList where
  filled := by decide
  begins := by simp [untitled, isBlank]
  ends := by simp [untitled, isBlank]
  harmless := by simp [untitled, hostileChars]

/-- Whatever a text holds, as a title it can name a file. -/
theorem namesFile_safeTitle (text : List Char) : NamesFile (safeTitle text).toList := by
  unfold safeTitle
  simp only
  have harmless : ∀ c ∈ text.map (fun c => if isHostile c then ' ' else c), c ∉ hostileChars := by
    intro d member
    obtain ⟨c, -, rfl⟩ := List.mem_map.mp member
    rw [← isHostile_iff]
    -- A character that is refused has become a space, which is not.
    split
    · decide
    · assumption
  split
  next => exact namesFile_untitled
  next filled =>
    rw [String.toList_ofList]
    exact {
      filled := by simpa using filled
      begins := fun c first => Text.not_isBlank_of_head?_trim first
      ends := fun c last => Text.not_isBlank_of_getLast?_trim last
      harmless := fun c member => harmless c (Text.mem_of_mem_trim member) }

theorem namesFile_titleOf (source : String) : NamesFile (titleOf source).toList := by
  rw [titleOf_eq]
  cases titleText? source with
  | none => exact namesFile_untitled
  | some text => exact namesFile_safeTitle text

/-- With an ending behind it a title leads one step down, also if it is a dot or two. -/
theorem isNormal_of_namesFile {title ending : String} (named : NamesFile title.toList)
    (plain : ∀ c ∈ ending.toList, c ∉ hostileChars) (long : 2 < ending.length) :
    Files.IsNormal (title ++ ending) := by
  have longer : 2 < (title ++ ending).length := by
    rw [String.length_append]
    omega
  have other {name : String} (short : name.length ≤ 2) : title ++ ending ≠ name := by
    rintro rfl
    omega
  refine ⟨other (by decide), other (by decide), other (by decide), ?_⟩
  rw [String.toList_append, List.mem_append, not_or]
  have refused : Files.separator ∈ hostileChars := by decide
  exact ⟨fun inside => named.harmless _ inside refused, fun inside => plain _ inside refused⟩

end Galley.Heading

namespace Galley.Command

open Galley.Heading (NamesFile hostileChars titleOf)

/-! ## Where pages go -/

/-- A page that goes into a directory is written to one more name along the path of the directory: the title of its
    document, which can name a file, with an ending. The directory around the page is the chosen one. -/
theorem page_stays_in_directory (directory source : String) :
    let name := titleOf source ++ ".html"
    let path := Files.join directory name
    (Destination.directory directory).pagePath source = some path ∧
      NamesFile (titleOf source).toList ∧ (∀ c ∈ name.toList, c ∉ hostileChars) ∧ Files.IsNormal name ∧
      Files.names path = Files.names directory ++ [name] ∧ Files.isAbsolute path = Files.isAbsolute directory ∧
      ∃ outer, Files.parent? path = some outer ∧ Files.isSame outer directory = true := by
  intro name path
  have named := Heading.namesFile_titleOf source
  have plain : ∀ c ∈ ".html".toList, c ∉ hostileChars := by simp [hostileChars]
  have normal : Files.IsNormal name := Heading.isNormal_of_namesFile named plain (by decide)
  obtain ⟨along, rooted⟩ := Files.names_join directory normal
  refine ⟨rfl, named, fun c member => ?_, normal, along, rooted, Files.isSame_parent_join directory normal⟩
  rw [String.toList_append, List.mem_append] at member
  exact member.elim (named.harmless c) (plain c)

/-- A heading that reads like a path out of the directory names a file in it. -/
theorem page_of_climbing_heading :
    (Destination.directory "site/").pagePath "# ../../etc\n" = some "site/.. .. etc.html" ∧
      Files.names "site/.. .. etc.html" = ["site", ".. .. etc.html"] := by
  have title : titleOf "# ../../etc\n" = ".. .. etc" := by decide
  obtain ⟨written, -, -, -, along, -⟩ := page_stays_in_directory "site/" "# ../../etc\n"
  rw [title] at written along
  exact ⟨written, along⟩

end Galley.Command
