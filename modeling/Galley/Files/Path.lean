/-!
# Paths

A path is a text in which solidi separate names. Names that lead nowhere, the empty one and all but a first
dot, do not count.

* `names` — the names that a path leads along;
* `parent?` — the path to the directory around it;
* `join` — a path inside a directory;
* `isSame` — whether two paths are the same, name by name.
-/

namespace Galley.Files

/-- The character between the names of a path. -/
def separator : Char := '/'

/-- Whether a path starts at the root. -/
def isAbsolute (path : String) : Bool := path.toList.head? == some separator

/-- A text cut at every separator. -/
def splitNames : List Char → List (List Char)
  | [] => [[]]
  | c :: rest =>
    if c == separator then [] :: splitNames rest
    else
      match splitNames rest with
      | name :: names => (c :: name) :: names
      | [] => [[c]]

/-- The names between the separators of a path, empty ones among them. -/
def allNames (path : String) : List String := (splitNames path.toList).map String.ofList

/-- Whether a name leads somewhere. -/
def leads (name : String) : Bool := name != "" && name != "."

/-- The names that a path leads along. A dot counts where a path begins with it. -/
def names (path : String) : List String :=
  match allNames path with
  | "." :: rest => "." :: rest.filter leads
  | all => all.filter leads

/-- A path made of names. -/
def ofNames (isAbsolute : Bool) (names : List String) : String :=
  (if isAbsolute then "/" else "") ++ String.intercalate "/" names

/-- The path to the directory around a path. The root and the empty path have none. -/
def parent? (path : String) : Option String :=
  match (names path).reverse with
  | [] => none
  | _ :: outer => some (ofNames (isAbsolute path) outer.reverse)

/-- A path inside a directory. A path from the root stays as it is. -/
def join (directory path : String) : String :=
  if isAbsolute path || directory.isEmpty then path
  else if directory.toList.getLast? == some separator then directory ++ path
  else directory ++ "/" ++ path

/-- Whether two paths are the same, name by name. -/
def isSame (a b : String) : Bool := isAbsolute a == isAbsolute b && names a == names b

end Galley.Files
