import Galley.Files.Host

/-!
# Files in memory

* `Entry`, `Tree` — files and directories by where they are;
* `Tree.find` — what a path leads to;
* `Tree.read`, `Tree.write`, `Tree.makeDirectory` — what is done with files;
* `Tree.put` — puts a file somewhere, with the directories around it.
-/

namespace Galley.Files

/-- What stands in a tree. -/
inductive Entry where
  /-- A file: its content, and whether it can be run. -/
  | file (content : ByteArray) (isExecutable : Bool)
  /-- A directory. -/
  | directory

/-- Where something stands: the names on the way from the root. -/
abbrev Place := List String

/-- Files and directories by where they are. The root always is one. -/
structure Tree where
  /-- All but the root. -/
  entries : List (Place × Entry)
  /-- The directory from which other paths start. -/
  working : Place

namespace Tree

/-- The directory of devices and what is in it. -/
def devices : List (Place × Entry) := [(["dev"], .directory), (["dev", "null"], .file ⟨#[]⟩ false)]

/-- The place of the device that is empty and stays so. -/
def nullDevice : Place := ["dev", "null"]

/-- A tree with an empty working directory. -/
def empty : Tree :=
  ⟨[(["work"], .directory), (["tmp"], .directory)] ++ devices, ["work"]⟩

/-- What stands at a place. -/
def entry? (tree : Tree) (place : Place) : Option Entry :=
  if place.isEmpty then some .directory else tree.entries.lookup place

/-- The most bytes that a name and a path may have. -/
def nameLimit : Nat := 255

/-- The most bytes that a path may have. -/
def pathLimit : Nat := 4095

/-- Follows names from a place. Each but the last must be that of a directory. -/
def walk (tree : Tree) : Place → List String → Except FileError Place
  | place, [] => .ok place
  | place, name :: rest =>
    match tree.entry? place with
    | none => .error .notFound
    | some (.file _ _) => .error .notDirectory
    | some .directory =>
      if name == ".." then walk tree place.dropLast rest
      else if !leads name then walk tree place rest
      else if nameLimit < name.utf8ByteSize then .error .nameTooLong
      else walk tree (place ++ [name]) rest

/-- The place that a path starts from. -/
def start (tree : Tree) (path : String) : Place := if isAbsolute path then [] else tree.working

/-- Checks that a path can be one. -/
def checkPath (path : String) : Except FileError Unit :=
  if path.toList.contains '\x00' then .error .nullInName
  else if path.isEmpty then .error .notFound
  else if pathLimit < path.utf8ByteSize then .error .nameTooLong
  else .ok ()

/-- The place that a path leads to. There may be nothing. -/
def place? (tree : Tree) (path : String) : Except FileError Place := do
  checkPath path
  tree.walk (tree.start path) (allNames path)

/-- What a path leads to, and where that is. -/
def find (tree : Tree) (path : String) : Except FileError (Place × Entry) := do
  let place ← tree.place? path
  match tree.entry? place with
  | some entry => return (place, entry)
  | none => throw .notFound

/-- Whether there is something at a path. -/
def has (tree : Tree) (path : String) : Bool := (tree.find path).toOption.isSome

/-- Whether there is a directory at a path. -/
def hasDirectory (tree : Tree) (path : String) : Bool :=
  match tree.find path with
  | .ok (_, .directory) => true
  | _ => false

/-- The content of a file. -/
def read (tree : Tree) (path : String) : Except FileError ByteArray := do
  match ← tree.find path with
  | (_, .file content _) => return content
  | (_, .directory) => throw .isDirectory

/-- The tree with something at a place, in the place of what was there. -/
def set (tree : Tree) (place : Place) (entry : Entry) : Tree :=
  if (tree.entries.lookup place).isSome then
    { tree with entries := tree.entries.map fun (other, old) =>
        if other == place then (other, entry) else (other, old) }
  else { tree with entries := tree.entries ++ [(place, entry)] }

/-- The directory that something new would stand in, and its name. Solidi at the end do not count. -/
def target (tree : Tree) (path : String) : Except FileError (Place × String) := do
  checkPath path
  let names := (allNames path).reverse.dropWhile (· == "")
  match names with
  | [] => throw .isDirectory
  | last :: outer =>
    let place ← tree.walk (tree.start path) outer.reverse
    match tree.entry? place with
    | none => throw .notFound
    | some (.file _ _) => throw .notDirectory
    | some .directory =>
      if nameLimit < last.utf8ByteSize then throw .nameTooLong else return (place, last)

/-- Replaces the content of a file, or makes one. -/
def write (tree : Tree) (path : String) (content : ByteArray) : Except FileError Tree := do
  let (place, name) ← tree.target path
  if path.toList.getLast? == some separator || name == "." || name == ".." then throw .isDirectory
  let place := place ++ [name]
  match tree.entry? place with
  | some .directory => throw .isDirectory
  | some (.file _ isExecutable) =>
    return if place == nullDevice then tree else tree.set place (.file content isExecutable)
  | none => return tree.set place (.file content false)

/-- Makes one directory. -/
def makeDirectory (tree : Tree) (path : String) : Except FileError Tree := do
  match tree.target path with
  | .error .isDirectory => throw .exists
  | .error error => throw error
  | .ok (place, name) =>
    if name == "." || name == ".." then throw .exists
    let place := place ++ [name]
    if (tree.entry? place).isSome then throw .exists
    return tree.set place .directory

/-- Makes directories at a place and on the way there, where there is nothing. `before` are the names that
lead to the place from which the others go on. -/
def ensure (tree : Tree) (before : Place) : List String → Tree
  | [] => tree
  | name :: rest =>
    let place := before ++ [name]
    let next := if (tree.entry? place).isSome then tree else tree.set place .directory
    ensure next place rest

/-- Puts a file at a path in the working directory, with the directories around it. -/
def put (tree : Tree) (path : String) (content : ByteArray) (isExecutable : Bool) : Tree :=
  let way := names path
  (tree.ensure tree.working way.dropLast).set (tree.working ++ way) (.file content isExecutable)

/-- Puts a directory at a path in the working directory, with those around it. -/
def putDirectory (tree : Tree) (path : String) : Tree := tree.ensure tree.working (names path)

/-- The files in the working directory by their paths from there. -/
def files (tree : Tree) : List (String × ByteArray) :=
  tree.entries.filterMap fun (place, entry) =>
    match entry, tree.working.isPrefixOf? place with
    | .file content _, some names => some (ofNames false names, content)
    | _, _ => none

end Tree

end Galley.Files
