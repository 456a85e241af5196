import Galley.Text.Table

/-!
# Diagrams and their ids

* `NamedDiagram` — a diagram of a document;
* `Naming` — how the diagrams of one pass are named;
* `Namer.next` — the next name;
* `Theme` — the colours of diagrams.
-/

namespace Galley.Diagram

/-- What every diagram id begins with. -/
def idStart : String := "mermaid-"

/-- A diagram found during conversion. -/
structure NamedDiagram where
  /-- The id of its place in the page. -/
  id : String
  /-- The text of the diagram. -/
  source : String
  deriving Repr, DecidableEq

/-- How the diagrams of a pass are named. -/
inductive Naming where
  /-- By random numbers, drawn from a seed. -/
  | random (seed : UInt64)
  /-- By 1, 2, 3, in each pass anew. -/
  | sequential
  deriving Repr, DecidableEq

/-- The same naming with random numbers drawn from another seed. -/
def Naming.withSeed (ids : Naming) (seed : UInt64) : Naming :=
  match ids with
  | random _ => .random seed
  | sequential => .sequential

/-- A well mixed number for each number. -/
def mix (n : UInt64) : UInt64 :=
  let a := (n ^^^ (n >>> 30)) * 0xbf58476d1ce4e5b9
  let b := (a ^^^ (a >>> 27)) * 0x94d049bb133111eb
  b ^^^ (b >>> 31)

/-- The step between the numbers that are mixed. -/
def mixStep : UInt64 := 0x9e3779b97f4a7c15

/-- A random identifier in 32 digits: version 4 in the thirteenth, the variant in the seventeenth. -/
def randomId (seed : UInt64) (index : Nat) : List Char :=
  let first := mix (seed + mixStep * (2 * index).toUInt64)
  let second := mix (seed + mixStep * (2 * index + 1).toUInt64)
  Text.hexDigits first.toNat 12 ++ '4' :: Text.hexDigits (first >>> 48).toNat 3 ++
    Text.hexDigits (8 + (second >>> 62).toNat) 1 ++ Text.hexDigits second.toNat 15

/-- Names diagrams one after the other. -/
structure Namer where
  /-- How diagrams are named. -/
  ids : Naming
  /-- How many names were given out. -/
  issued : Nat
  deriving Repr, DecidableEq

/-- Before any name was given out. -/
def Namer.ofIds (ids : Naming) : Namer := ⟨ids, 0⟩

/-- The next name, and what names the diagrams after it. -/
def Namer.next (namer : Namer) : String × Namer :=
  let issued := namer.issued + 1
  let name := match namer.ids with
    | .sequential => toString issued
    | .random seed => .ofList (randomId seed issued)
  (idStart ++ name, { namer with issued })

/-- The colours of diagrams. -/
inductive Theme where
  /-- For a light page. -/
  | light
  /-- For a dark page. -/
  | dark
  deriving Repr, DecidableEq

/-- The theme that goes with a page. -/
def Theme.ofDarkMode (darkMode : Bool) : Theme := if darkMode then .dark else .light

/-- What the renderer calls a theme. -/
def Theme.name : Theme → String
  | light => "default"
  | dark => "dark"

end Galley.Diagram
