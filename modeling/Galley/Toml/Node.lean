import Galley.Settings.Value
import Galley.Toml.Literal

/-!
# The tree of a document

A document gives its values one after the other, each under a path of keys. How a table came into being
decides what may still be put into it.

* `Key`, `Node`, `Entries` — the tree while it is built;
* `assign` — puts a value under a path of keys;
* `openTable`, `openItem` — a heading begins a table, or another table in a row;
* `within` — changes the table that a heading began;
* `Node.toValue` — the finished tree.
-/

namespace Galley.Toml

open Galley.Settings (Value)

/-- A key and its place. -/
structure Key where
  /-- The key. -/
  name : String
  /-- How many characters follow its place. -/
  remaining : Nat
  deriving Repr, DecidableEq

/-- How a table came into being. -/
inductive Origin where
  /-- By a heading. -/
  | heading
  /-- By the heading of a table in it. -/
  | implied
  /-- By a path of keys in front of a value. -/
  | dotted
  deriving Repr, DecidableEq

/-- A node of the tree. -/
inductive Node where
  /-- A value to which nothing can be added. -/
  | value (value : Value)
  /-- A table. -/
  | table (remaining : Nat) (origin : Origin) (entries : List (String × Node))
  /-- Tables in a row, the latest first. -/
  | items (remaining : Nat) (tables : List (List (String × Node)))

/-- What is in a table. -/
abbrev Entries := List (String × Node)

/-- The entries with another node under a key. -/
def setEntry (entries : Entries) (name : String) (node : Node) : Entries :=
  match entries with
  | [] => [(name, node)]
  | (other, old) :: rest =>
    if other == name then (name, node) :: rest else (other, old) :: setEntry rest name node

/-- The fault of a key. -/
def Key.fault {α : Type} (key : Key) : Except Fault α := .error ⟨key.remaining⟩

/-- Puts a value under a path of keys that ends with `last`. Tables on the way are made, and only such as
were made in this way are gone through. -/
def assign (entries : Entries) : (path : List Key) → (last : Key) → Node → Except Fault Entries
  | [], last, node =>
    if (entries.lookup last.name).isSome then last.fault else .ok (entries ++ [(last.name, node)])
  | key :: path, last, node =>
    match entries.lookup key.name with
    | none => do
      let inner ← assign [] path last node
      return entries ++ [(key.name, .table key.remaining .dotted inner)]
    | some (.table remaining .dotted inner) => do
      let inner ← assign inner path last node
      return setEntry entries key.name (.table remaining .dotted inner)
    | some (.table _ .implied _) => last.fault
    | some _ => key.fault

/-- Goes along the path of a heading and changes what it leads to. Tables on the way are made. -/
def descend (entries : Entries) (finish : Entries → Except Fault Entries) :
    (path : List Key) → Except Fault Entries
  | [] => finish entries
  | key :: path =>
    match entries.lookup key.name with
    | none => do
      let inner ← descend [] finish path
      return entries ++ [(key.name, .table key.remaining .implied inner)]
    | some (.table remaining origin inner) => do
      let inner ← descend inner finish path
      return setEntry entries key.name (.table remaining origin inner)
    | some (.items remaining (latest :: others)) => do
      let latest ← descend latest finish path
      return setEntry entries key.name (.items remaining (latest :: others))
    | some _ => key.fault

/-- A heading begins a table. A table begins only once. -/
def openTable (remaining : Nat) (last : Key) (entries : Entries) : Except Fault Entries :=
  match entries.lookup last.name with
  | none => .ok (entries ++ [(last.name, .table remaining .heading [])])
  | some (.table _ .implied inner) =>
    .ok (setEntry entries last.name (.table remaining .heading inner))
  | some _ => last.fault

/-- A heading begins another table in a row. -/
def openItem (remaining : Nat) (last : Key) (entries : Entries) : Except Fault Entries :=
  match entries.lookup last.name with
  | none => .ok (entries ++ [(last.name, .items remaining [[]])])
  | some (.items first tables) => .ok (setEntry entries last.name (.items first ([] :: tables)))
  | some _ => last.fault

/-- Changes the table that a path leads to, or the latest one in a row. -/
def within (entries : Entries) (change : Entries → Except Fault Entries) :
    (path : List String) → Except Fault Entries
  | [] => change entries
  | name :: path =>
    match entries.lookup name with
    | some (.table remaining origin inner) => do
      let inner ← within inner change path
      return setEntry entries name (.table remaining origin inner)
    | some (.items remaining (latest :: others)) => do
      let latest ← within latest change path
      return setEntry entries name (.items remaining (latest :: others))
    | _ => .ok entries

mutual

/-- The value of a node. -/
def Node.toValue : Node → Value
  | .value value => value
  | .table remaining _ entries => .located remaining (.table (toValues entries))
  | .items remaining tables => .located remaining (.list (toTables remaining tables).reverse)

/-- The values of entries. -/
def toValues : List (String × Node) → List (String × Value)
  | [] => []
  | (name, node) :: rest => (name, node.toValue) :: toValues rest

/-- The values of tables in a row. -/
def toTables (remaining : Nat) : List (List (String × Node)) → List Value
  | [] => []
  | entries :: rest => .located remaining (.table (toValues entries)) :: toTables remaining rest

end

end Galley.Toml
