import Galley.Files.Host
import Galley.Text.Letter

/-!
# Variables in paths

A configured path may name variables of the environment, and begin with a tilde for the directory of the
user.

* `Piece`, `pieces` — the pieces of a path;
* `Piece.value?` — what a piece stands for;
* `fill?` — a path with all of it filled in;
* `fillPath` — the same with the environment of a host.
-/

namespace Galley.Settings

/-- A piece of a path. -/
inductive Piece where
  /-- Text as it is. -/
  | text (text : String)
  /-- A variable, and what stands for it if there is none of its name. -/
  | variable (name : String) (fallback : Option String)
  deriving Repr, DecidableEq

/-- Whether a character can stand in a name without braces. -/
def isNameChar (c : Char) : Bool := c == '_' || Text.isAlphanumeric c

/-- Where a fallback begins in what stands between braces: the text before `:-` and the one after it. -/
def splitFallback : List Char → Option (List Char × List Char)
  | [] => none
  | ':' :: '-' :: rest => some ([], rest)
  | c :: rest => (splitFallback rest).map fun (before, after) => (c :: before, after)

/-- The variable that braces hold. A fallback has a name in front of it. -/
def bracedVariable (inner : List Char) : Piece :=
  match splitFallback inner with
  | some (c :: name, fallback) => .variable (.ofList (c :: name)) (some (.ofList fallback))
  | _ => .variable (.ofList inner) none

/-- The piece that begins with a dollar sign, and how many characters after the sign belong to it. -/
def dollarPiece (rest : List Char) : Piece × Nat :=
  match rest with
  | '\x7b' :: after =>
    let inner := after.takeWhile (· != '\x7d')
    if inner.length < after.length then (bracedVariable inner, inner.length + 2)
    else (.text "$\x7b", 1)
  | '$' :: _ => (.text "$", 1)
  | _ =>
    let name := rest.takeWhile isNameChar
    if name.isEmpty then (.text "$", 0) else (.variable (.ofList name) none, name.length)

/-- The pieces of a path. -/
def pieces : List Char → List Piece
  | [] => []
  | c :: rest =>
    if c = '$' then
      let (piece, length) := dollarPiece rest
      piece :: pieces (rest.drop length)
    else .text (.singleton c) :: pieces rest
termination_by cs => cs.length
decreasing_by all_goals (simp only [List.length_cons, List.length_drop]; omega)

/-- Values of variables by their names. -/
abbrev Environment := List (String × String)

/-- What a piece stands for. -/
def Piece.value? (environment : Environment) : Piece → Option String
  | text t => some t
  | .variable name fallback => (environment.lookup name).or fallback

/-- The name of the variable for the directory of the user. -/
def homeName : String := "HOME"

/-- A path in which a tilde at the start stands for the directory of the user. -/
def fillHome (home : Option String) (path : String) : String :=
  match path.toList, home with
  | ['~'], some directory => directory
  | '~' :: '/' :: rest, some directory => directory ++ String.ofList ('/' :: rest)
  | _, _ => path

/-- Whether a path begins with a tilde. -/
def startsWithTilde (path : String) : Bool := path.toList.head? == some '~'

/-- A path with its variables filled in, if all of them have a value. A tilde counts where the path itself
begins with one. -/
def fill? (environment : Environment) (path : String) : Option String := do
  let values ← (pieces path.toList).mapM (·.value? environment)
  let filled := String.join values
  if startsWithTilde path then return fillHome (environment.lookup homeName) filled
  else return filled

/-- The variables that a path may need. -/
def neededNames (path : String) : List String :=
  homeName :: (pieces path.toList).filterMap fun piece =>
    match piece with
    | .text _ => none
    | .variable name _ => some name

variable {m : Type → Type} [Monad m]

/-- Some variables of a host. -/
def readEnvironment (host : Files.Host m) : List String → m Environment
  | [] => return []
  | name :: rest => do
    let value ← host.environment name
    let others ← readEnvironment host rest
    return (value.map fun value => (name, value)).toList ++ others

/-- A path with its variables filled in. -/
def fillPath (host : Files.Host m) (path : String) : m (Option String) := do
  return fill? (← readEnvironment host (neededNames path)) path

end Galley.Settings
