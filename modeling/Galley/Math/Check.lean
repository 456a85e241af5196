import Galley.Text.Blank
import Galley.Text.Scan

/-!
# Checks on formulas

What has to be balanced in a formula, whatever its commands mean.

* `FormulaError` — what can be wrong, and `FormulaError.message`, how it is said;
* `braceDepth?` — the braces that are open at the end;
* `environmentMarks`, `openEnvironments` — the environments;
* `sizedMarks`, `sizedDepth?` — the delimiters that grow with what they enclose;
* `check` — all of them, in this order.
-/

namespace Galley.Math

/-- What can be wrong with a formula. -/
inductive FormulaError where
  /-- Nothing but blanks. -/
  | empty
  /-- A brace without its partner. -/
  | unbalancedBraces
  /-- An environment that ends under another name than it began with. -/
  | mismatchedEnvironment (expected found : String)
  /-- An environment without an end. -/
  | unclosedEnvironment (name : String)
  /-- The end of an environment that never began. -/
  | unexpectedEnd (name : String)
  /-- A sized delimiter without its partner. -/
  | unbalancedDelimiters
  /-- What the typesetter itself found. -/
  | engine (text : String)
  deriving Repr, DecidableEq

/-- An error in words. -/
def FormulaError.message : FormulaError → String
  | empty => "empty math expression"
  | unbalancedBraces => "unbalanced braces"
  | mismatchedEnvironment expected found =>
    "expected \\end\x7b" ++ expected ++ "\x7d, found \\end\x7b" ++ found ++ "\x7d"
  | unclosedEnvironment name => "\\begin\x7b" ++ name ++ "\x7d is never closed"
  | unexpectedEnd name => "\\end\x7b" ++ name ++ "\x7d without matching \\begin"
  | unbalancedDelimiters => "unbalanced \\left and \\right"
  | engine text => text

/-- How many braces are open after a text, if none closes before it opens. A backslash takes the next
character along. -/
def braceDepth? : Nat → List Char → Option Nat
  | depth, [] => some depth
  | depth, '\\' :: _ :: rest => braceDepth? depth rest
  | depth, ['\\'] => some depth
  | depth, c :: rest =>
    if c = '\x7b' then braceDepth? (depth + 1) rest
    else if c = '\x7d' then
      if depth = 0 then none else braceDepth? (depth - 1) rest
    else braceDepth? depth rest

/-- One end of an environment. -/
structure EnvironmentMark where
  /-- Whether it is the first end. -/
  isBegin : Bool
  /-- The name in the braces, without the blanks around it. -/
  name : List Char
  deriving Repr, DecidableEq

/-- The mark that a text begins with: `\begin` or `\end`, blanks, and a name in braces. -/
def environmentMark? (cs : List Char) : Option (EnvironmentMark × Nat) :=
  match Text.dropStart? "\\begin" cs, Text.dropStart? "\\end" cs with
  | some rest, _ => named true rest
  | none, some rest => named false rest
  | none, none => none
where
  /-- The name in braces after the command. -/
  named (isBegin : Bool) (rest : List Char) : Option (EnvironmentMark × Nat) :=
    match Text.trimStart rest with
    | '\x7b' :: body =>
      let name := body.takeWhile (· != '\x7d')
      match body.drop name.length with
      | _ :: after => some (⟨isBegin, Text.trim name⟩, cs.length - after.length)
      | [] => none
    | _ => none

/-- The marks of a text from left to right. -/
def environmentMarks (cs : List Char) : List EnvironmentMark := Text.scanAll environmentMark? cs

/-- The names that are open after some marks, the innermost first. -/
def openEnvironments : List (List Char) → List EnvironmentMark → Except FormulaError (List (List Char))
  | opened, [] => .ok opened
  | opened, mark :: rest =>
    if mark.isBegin then openEnvironments (mark.name :: opened) rest
    else
      match opened with
      | expected :: outer =>
        if expected = mark.name then openEnvironments outer rest
        else .error (.mismatchedEnvironment (.ofList expected) (.ofList mark.name))
      | [] => .error (.unexpectedEnd (.ofList mark.name))

/-- The sized delimiter that a text begins with, `true` for the left one. No letter may follow, and the
character that follows belongs to it. -/
def sizedMark? (cs : List Char) : Option (Bool × Nat) :=
  match Text.dropStart? "\\left" cs, Text.dropStart? "\\right" cs with
  | some rest, _ => delimiter true rest
  | none, some rest => delimiter false rest
  | none, none => none
where
  /-- The character after the command. -/
  delimiter (isLeft : Bool) : List Char → Option (Bool × Nat)
    | [] => some (isLeft, cs.length)
    | c :: after => if c.isAlpha then none else some (isLeft, cs.length - after.length)

/-- The sized delimiters of a text from left to right. -/
def sizedMarks (cs : List Char) : List Bool := Text.scanAll sizedMark? cs

/-- How many sized delimiters are open after some marks, if none closes before it opens. -/
def sizedDepth? : Nat → List Bool → Option Nat
  | depth, [] => some depth
  | depth, true :: rest => sizedDepth? (depth + 1) rest
  | 0, false :: _ => none
  | depth + 1, false :: rest => sizedDepth? depth rest

/-- The checks on a formula: it is not blank, then its braces, its environments and its sized delimiters
are balanced. The first one that fails gives the error. -/
def check (tex : String) : Except FormulaError Unit := do
  let cs := tex.toList
  if Text.isBlankText cs then throw .empty
  if braceDepth? 0 cs != some 0 then throw .unbalancedBraces
  match ← openEnvironments [] (environmentMarks cs) with
  | name :: _ => throw (.unclosedEnvironment (.ofList name))
  | [] => pure ()
  if sizedDepth? 0 (sizedMarks cs) != some 0 then throw .unbalancedDelimiters

end Galley.Math
