import Galley.Markdown.Event

/-!
# Emphasis

Runs of delimiters are paired up: a closing run ends the nearest run that it can end.

* `Node` — a piece of the line and what is in it;
* `Piece` — a piece of the line, or a run of delimiters;
* `pairDelimiters` — the pieces of a line with its emphasis.
-/

namespace Galley.Markdown

/-- A piece of the line. -/
inductive Node where
  /-- Something without an inside. -/
  | leaf (event : Event)
  /-- Something with content. -/
  | span (tag : Tag) (content : List Node)

/-- Text as a piece of the line. -/
def Node.text (cs : List Char) : Node := .leaf (.text (.ofList cs))

mutual

/-- The events of a piece of the line. -/
def Node.events : Node → List Event
  | .leaf event => [event]
  | .span tag content => .start tag :: (Node.eventsOf content ++ [.stop tag])

/-- The events of some pieces of the line. -/
def Node.eventsOf : List Node → List Event
  | [] => []
  | node :: rest => node.events ++ Node.eventsOf rest

end

/-- A run of delimiters. -/
structure Delimiters where
  /-- What it is made of. -/
  mark : Char
  /-- How long it was written. -/
  length : Nat
  /-- Whether it can begin emphasis. -/
  opens : Bool
  /-- Whether it can end emphasis. -/
  closes : Bool
  deriving Repr, DecidableEq

/-- Whether a run can both begin and end emphasis. -/
def Delimiters.isBoth (run : Delimiters) : Bool := run.opens && run.closes

/-- A piece of the line, or a run of delimiters. -/
inductive Piece where
  /-- A piece that is what it is. -/
  | node (node : Node)
  /-- A run that may be a part of emphasis. -/
  | delimiters (run : Delimiters)

/-- A run that may begin emphasis. -/
structure Opener where
  /-- The run. -/
  run : Delimiters
  /-- How many delimiters are left of it. -/
  count : Nat
  /-- The pieces after it, the latest first. -/
  inside : List Node

/-- The delimiters that are left of a run, as text. -/
def Opener.asText (opener : Opener) : Node := .text (List.replicate opener.count opener.run.mark)

/-- A class of closing runs. Runs of one class can end the same openers. -/
structure CloserClass where
  /-- What the runs are made of. -/
  mark : Char
  /-- The length modulo three; three stands for runs that cannot begin emphasis. -/
  index : Nat
  deriving Repr, DecidableEq

/-- The state of the pairing. -/
structure Pairing where
  /-- The pieces before all openers, the latest first. -/
  outside : List Node
  /-- The open runs, the latest first. -/
  openers : List Opener
  /-- For a class of closing runs, how many of the outermost openers none of them can end. -/
  bounds : List (CloserClass × Nat)

namespace Pairing

/-- The state with one more piece. -/
def push (state : Pairing) (node : Node) : Pairing :=
  match state.openers with
  | [] => { state with outside := node :: state.outside }
  | opener :: rest => { state with openers := { opener with inside := node :: opener.inside } :: rest }

/-- The bound of a class. -/
def boundOf (state : Pairing) (mark : Char) (index : Nat) : Nat :=
  (state.bounds.lookup ⟨mark, index⟩).getD 0

/-- The state with a new bound for a class. -/
def setBound (state : Pairing) (mark : Char) (index bound : Nat) : Pairing :=
  { state with bounds := (⟨mark, index⟩, bound) :: state.bounds }

/-- How many of the outermost openers a closing run passes over. -/
def lowerBound (state : Pairing) (run : Delimiters) : Nat :=
  if run.mark == '~' then state.boundOf '~' 0
  else
    let bound := state.boundOf run.mark (run.length % 3)
    if run.isBoth then bound else min bound (state.boundOf run.mark 3)

/-- The state after a closing run has found no opener. -/
def raiseBound (state : Pairing) (run : Delimiters) : Pairing :=
  let bound := state.openers.length
  if run.mark == '~' then state.setBound '~' 0 bound
  else if run.isBoth then state.setBound run.mark (run.length % 3) bound
  else if run.mark == '*' then (state.setBound '*' (run.length % 3) bound).setBound '*' 3 bound
  else state.setBound run.mark 3 bound

/-- The state with no bound above a number. -/
def lowerBounds (state : Pairing) (limit : Nat) : Pairing :=
  { state with bounds := state.bounds.map fun (key, bound) => (key, min bound limit) }

/-- Whether a closing run can end an opener. Runs of tildes must have the same length. If one of two runs
could also do the other thing, their lengths must not add up to a multiple of three, unless each of them
is one. -/
def isMatch (run : Delimiters) (opener : Opener) : Bool :=
  opener.run.mark == run.mark && (run.mark != '~' || opener.run.length == run.length) &&
    ((!run.isBoth && !opener.run.isBoth) || (run.length + opener.run.length) % 3 != 0 ||
      run.length % 3 == 0)

/-- The openers up to the first one that a closing run can end, that one, and the ones after it. At most
`limit` openers are looked at. -/
def findOpener? (run : Delimiters) : Nat → List Opener → Option (List Opener × Opener × List Opener)
  | 0, _ => none
  | _ + 1, [] => none
  | limit + 1, opener :: rest =>
    if isMatch run opener then some ([], opener, rest)
    else
      (findOpener? run limit rest).map fun (passed, found, outer) => (opener :: passed, found, outer)

/-- Pieces inside `count` pairs of delimiters: strong emphasis for two, emphasis for one, and tildes strike
out. The outermost pair is the single one. -/
def wrap (mark : Char) : Nat → List Node → List Node
  | 0, content => content
  | 1, content => [.span (if mark == '~' then .strikethrough else .emphasis) content]
  | count + 2, content =>
    wrap mark count [.span (if mark == '~' then .strikethrough else .strong) content]

/-- Ends openers with the `count` delimiters that are left of a closing run. Gives the state and what is
left. `fuel` bounds the openers that are ended. -/
def close (run : Delimiters) : (fuel : Nat) → Nat → Pairing → Pairing × Nat
  | 0, count, state => (state, count)
  | _ + 1, 0, state => (state, 0)
  | fuel + 1, count + 1, state =>
    let limit := state.openers.length - min state.openers.length (state.lowerBound run)
    match findOpener? run limit state.openers with
    | none => (state.raiseBound run, count + 1)
    | some (passed, opener, outer) =>
      let inside := passed.flatMap (fun inner => inner.inside ++ [inner.asText]) ++ opener.inside
      let used := min (count + 1) opener.count
      let nodes := wrap run.mark used inside.reverse
      let state := { state with openers := outer }.lowerBounds outer.length
      let state :=
        if used < opener.count then
          { state with openers := ⟨opener.run, opener.count - used, nodes.reverse⟩ :: outer }
        else nodes.foldl push state
      close run fuel (count + 1 - used) state

/-- The state after one more piece. What a closing run leaves can begin emphasis, or is text. -/
def step (state : Pairing) : Piece → Pairing
  | .node node => state.push node
  | .delimiters run =>
    let (state, count) :=
      if run.closes then close run (run.length + 1) run.length state else (state, run.length)
    if count == 0 then state
    else if run.opens then { state with openers := ⟨run, count, []⟩ :: state.openers }
    else state.push (.text (List.replicate count run.mark))

/-- All pieces in their order. Runs that are still open become text. -/
def finish (state : Pairing) : List Node :=
  (state.openers.flatMap (fun opener => opener.inside ++ [opener.asText]) ++ state.outside).reverse

end Pairing

/-- The pieces of a line with its emphasis. -/
def pairDelimiters (pieces : List Piece) : List Node :=
  (pieces.foldl Pairing.step ⟨[], [], []⟩).finish

end Galley.Markdown
