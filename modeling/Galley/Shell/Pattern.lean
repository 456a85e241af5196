/-!
# Patterns of lines

* `PatternPart`, `Pattern.ofChars` — patterns of characters, some of them any number of times;
* `Pattern.ofWord` — patterns for whole words;
* `Pattern.matches` — whether a line holds what a pattern says.
-/

namespace Galley.Shell

/-- What one character of a line may be. -/
inductive OneOf where
  /-- Any character. -/
  | any
  /-- One of some characters, or none of them. -/
  | set (isNegated : Bool) (chars : List Char)
  deriving Repr, DecidableEq

/-- A part of a pattern: what a character may be, and whether it may be there any number of times. -/
structure PatternPart where
  /-- What the character may be. -/
  one : OneOf
  /-- Whether it may be there any number of times. -/
  isRepeated : Bool
  deriving Repr, DecidableEq

/-- A pattern: its parts, and whether they stand at the start and at the end of a line. -/
structure Pattern where
  /-- Whether a line begins with it. -/
  isAtStart : Bool
  /-- Its parts. -/
  parts : List PatternPart
  /-- Whether a line ends with it. -/
  isAtEnd : Bool
  deriving Repr, DecidableEq

/-- Whether a character may be one. -/
def OneOf.allows (one : OneOf) (c : Char) : Bool :=
  match one with
  | any => true
  | set isNegated chars => chars.contains c != isNegated

/-- The characters of a set in brackets: a hyphen stands for all between its neighbours. -/
def setChars : List Char → List Char
  | a :: '-' :: b :: rest =>
    (List.range (b.toNat + 1 - a.toNat)).map (fun i => Char.ofNat (a.toNat + i)) ++ setChars rest
  | c :: rest => c :: setChars rest
  | [] => []

/-- A part of a pattern, repeated if a star follows, and what follows it. -/
def starred (one : OneOf) : List Char → PatternPart × List Char
  | '*' :: rest => (⟨one, true⟩, rest)
  | rest => (⟨one, false⟩, rest)

/-- The parts of a pattern, and whether it ends with the end of the line. `fuel` bounds how many there
are. -/
def patternParts : (fuel : Nat) → List Char → List PatternPart × Bool
  | 0, _ => ([], false)
  | _, [] => ([], false)
  | _, ['$'] => ([], true)
  | fuel + 1, c :: rest =>
    let (one, after) : OneOf × List Char :=
      match c, rest with
      | '.', _ => (.any, rest)
      | '\\', d :: more => (.set false [d], more)
      | '[', '^' :: more =>
        let chars := more.takeWhile (· != ']')
        (.set true (setChars chars), more.drop (chars.length + 1))
      | '[', _ =>
        let chars := rest.takeWhile (· != ']')
        (.set false (setChars chars), rest.drop (chars.length + 1))
      | _, _ => (.set false [c], rest)
    let (part, after) := starred one after
    let (parts, isAtEnd) := patternParts fuel after
    (part :: parts, isAtEnd)

/-- A pattern as it is written. -/
def Pattern.ofChars (cs : List Char) : Pattern :=
  let (isAtStart, rest) := match cs with
    | '^' :: rest => (true, rest)
    | _ => (false, cs)
  let (parts, isAtEnd) := patternParts rest.length rest
  ⟨isAtStart, parts, isAtEnd⟩

/-- A pattern in which every character stands for itself. -/
def Pattern.literal (cs : List Char) : Pattern :=
  ⟨false, cs.map fun c => ⟨.set false [c], false⟩, false⟩

/-- The parts of a pattern for whole words: a star stands for anything, a question mark for one character.
`fuel` bounds how many there are. -/
def wordParts : (fuel : Nat) → List Char → List PatternPart
  | 0, _ => []
  | _, [] => []
  | fuel + 1, c :: rest =>
    match c, rest with
    | '*', _ => ⟨.any, true⟩ :: wordParts fuel rest
    | '?', _ => ⟨.any, false⟩ :: wordParts fuel rest
    | '\\', d :: more => ⟨.set false [d], false⟩ :: wordParts fuel more
    | '[', _ =>
      let isNegated := rest.head? == some '!'
      let inner := if isNegated then rest.drop 1 else rest
      let chars := inner.takeWhile (· != ']')
      ⟨.set isNegated (setChars chars), false⟩ :: wordParts fuel (inner.drop (chars.length + 1))
    | _, _ => ⟨.set false [c], false⟩ :: wordParts fuel rest

/-- A pattern for whole words as it is written. -/
def Pattern.ofWord (cs : List Char) : Pattern := ⟨true, wordParts cs.length cs, true⟩

/-- Whether a line goes on with some parts. `fuel` bounds the steps. -/
def matchesHere (isAtEnd : Bool) : (fuel : Nat) → List PatternPart → List Char → Bool
  | 0, _, _ => false
  | _, [], line => !isAtEnd || line.isEmpty
  | fuel + 1, part :: rest, line =>
    let taken : Bool := match line with
      | c :: more =>
        part.one.allows c && matchesHere isAtEnd fuel (if part.isRepeated then part :: rest else rest) more
      | [] => false
    taken || (part.isRepeated && matchesHere isAtEnd fuel rest line)

/-- Whether a line or what it ends with goes on with some parts. -/
def matchesSomewhere (pattern : Pattern) (fuel : Nat) : List Char → Bool
  | [] => matchesHere pattern.isAtEnd fuel pattern.parts []
  | c :: rest =>
    matchesHere pattern.isAtEnd fuel pattern.parts (c :: rest) || matchesSomewhere pattern fuel rest

/-- Whether a line holds what a pattern says. -/
def Pattern.matches (pattern : Pattern) (line : List Char) : Bool :=
  let fuel := line.length + pattern.parts.length + 1
  if pattern.isAtStart then matchesHere pattern.isAtEnd fuel pattern.parts line
  else matchesSomewhere pattern fuel line

/-- A text with its small letters in the place of its ASCII capitals. -/
def lowerLine (cs : List Char) : List Char := cs.map Char.toLower

end Galley.Shell
