/-!
# Values of settings

Settings come as trees of values, from a file or from a caller, and are read into records field by field.

* `Value` — the trees;
* `Mismatch`, `Decoded` — the outcome of reading a value as something it may not be;
* `Value.boolean`, `Value.text`, `Value.texts`, `Value.textLists` — what values are read as;
* `Value.fields` — the fields of a record, by name or in their order;
* `Fields.read` — one field.
-/

namespace Galley.Settings

/-- A value of settings. -/
inductive Value where
  /-- No value. -/
  | null
  /-- A truth value. -/
  | boolean (value : Bool)
  /-- A text. -/
  | text (value : String)
  /-- A number or a date. No setting is one. -/
  | other
  /-- Values in a row. -/
  | list (items : List Value)
  /-- Values by name. -/
  | table (entries : List (String × Value))
  /-- A value and the place in a file where it is written. -/
  | located (position : Nat) (value : Value)
  deriving Repr

/-- A value that is not what it should be, and its place in a file if it came from one. -/
structure Mismatch where
  /-- The place. -/
  position : Option Nat
  deriving Repr, DecidableEq

/-- What a value was read as, or the value that did not fit. -/
abbrev Decoded (α : Type) := Except Mismatch α

/-- The mismatch with a place, unless it has one already. -/
def Mismatch.located (mismatch : Mismatch) (position : Nat) : Mismatch :=
  ⟨mismatch.position.orElse fun _ => some position⟩

namespace Value

/-- A mismatch at a place that is not known. -/
def mismatch {α : Type} : Decoded α := .error ⟨none⟩

/-- Reads a value without its place. A mismatch gets the place. -/
def reading {α : Type} (read : Value → Decoded α) : Value → Decoded α
  | located position value => (reading read value).mapError (·.located position)
  | value => read value

/-- A truth value. -/
def boolean? : Value → Decoded Bool :=
  reading fun value =>
    match value with
    | boolean b => .ok b
    | _ => mismatch

/-- A text. -/
def text? : Value → Decoded String :=
  reading fun value =>
    match value with
    | text t => .ok t
    | _ => mismatch

/-- A text or nothing. -/
def optionalText? : Value → Decoded (Option String) :=
  reading fun value =>
    match value with
    | null => .ok none
    | text t => .ok (some t)
    | _ => mismatch

/-- Several texts. -/
def texts? : Value → Decoded (List String) :=
  reading fun value =>
    match value with
    | list items => items.mapM text?
    | _ => mismatch

/-- Whether the key of one entry stands before that of another. -/
def keyBefore (a b : String × List String) : Bool := a.1 ≤ b.1

/-- Several texts for each of some names, in the order of the names. -/
def textLists? : Value → Decoded (List (String × List String)) :=
  reading fun value =>
    match value with
    | table entries => do
      let lists ← entries.mapM fun (name, value) => do return (name, ← value.texts?)
      return lists.mergeSort keyBefore
    | _ => mismatch

/-- A unit of an enumeration: its name, or a table with nothing but its name. -/
def unit? : Value → Decoded String :=
  reading fun value =>
    match value with
    | text t => .ok t
    | table [(name, null)] => .ok name
    | _ => mismatch

end Value

/-- The fields of a record that were given. -/
abbrev Fields := List (String × Value)

/-- The fields of a record with some names. A table gives them by name and may hold more, a list gives them
in their order and may stop early. -/
def Value.fields (names : List String) : Value → Decoded Fields :=
  Value.reading fun value =>
    match value with
    | table entries => .ok entries
    | list items => if items.length ≤ names.length then .ok (names.zip items) else mismatch
    | _ => mismatch

/-- The value of a field, or what it is without one. -/
def Fields.read {α : Type} (fields : Fields) (name : String) (read : Value → Decoded α) (absent : α) :
    Decoded α :=
  match fields.lookup name with
  | none => .ok absent
  | some value => read value

end Galley.Settings
