import Galley.Diagram.Error
import Galley.Diagram.Id
import Galley.Text.Blank
import Galley.Text.Escape
import Galley.Text.Reference

/-!
# The screen

What the reader sees: the page of the latest pass, with a picture for each diagram as soon as there is one.

* `Screen` — the pieces of the page and what is known of each picture;
* `Screen.ofMarkup` — shows the document of a pass;
* `Screen.settle` — puts the outcome of a diagram in its place, if it is still awaited;
* `Screen.markup` — the page with every picture as it is now.
-/

namespace Galley

open Galley.Diagram (PictureError NamedDiagram)

/-- What is known of the picture of a diagram. -/
inductive Picture where
  /-- There is none yet, but the text that it will be drawn from. -/
  | awaited (source : String)
  /-- It is there. -/
  | drawn (svg : String)
  /-- There will be none. -/
  | failed (message : String)
  deriving Repr, DecidableEq

/-- Whether a picture is still awaited. -/
def Picture.isAwaited : Picture → Bool
  | awaited _ => true
  | _ => false

/-- The picture that an outcome gives. -/
def Picture.ofOutcome : Except PictureError String → Picture
  | .ok svg => .drawn svg
  | .error error => .failed error.message

/-- What became of an outcome. -/
inductive Settlement where
  /-- It is in its place. -/
  | applied
  /-- Nothing waits for it. -/
  | stale
  deriving Repr, DecidableEq

/-- A piece of the page. -/
inductive Segment where
  /-- Markup that stays as it is. -/
  | markup (text : String)
  /-- The place of a diagram. -/
  | diagram (id : String)
  deriving Repr, DecidableEq

/-- The place of a diagram in markup. -/
structure Placeholder where
  /-- The id attribute as it is written. -/
  id : List Char
  /-- What stands in the element. -/
  body : List Char
  deriving Repr, DecidableEq

/-- The placeholder that a text begins with, and what follows it. -/
def Placeholder.ofStart? (cs : List Char) : Option (Placeholder × List Char) := do
  let rest ← Text.dropStart? "<div class=\"mermaid\" id=\"" cs
  let id := rest.takeWhile (· != '\x22')
  let rest ← Text.dropStart? "\">" (rest.drop id.length)
  let body := rest.takeWhile (· != '<')
  let rest ← Text.dropStart? "</div>" (rest.drop body.length)
  return (⟨id, body⟩, rest)

/-- What is shown. -/
structure Screen where
  /-- The pass whose page is shown. -/
  generation : Nat
  /-- The pieces of the page. -/
  segments : List Segment
  /-- The picture of each diagram, by the id of the diagram. -/
  pictures : List (String × Picture)
  deriving Repr, DecidableEq

namespace Screen

/-- A screen that shows nothing. -/
def empty : Screen := ⟨0, [], []⟩

/-- A stretch of markup, unless it is empty. The characters come last first. -/
def markupSegment (reversed : List Char) : List Segment :=
  if reversed.isEmpty then [] else [.markup (.ofList reversed.reverse)]

/-- The pieces of a page and its pictures. `seen` are the ids met so far, `markup` is the markup since
the last diagram, last character first. `fuel` bounds the steps; each reads at least one character.
A placeholder without id, or with an id that was met before, stays markup. -/
def split : Nat → List String → List Char → List Char → List Segment × List (String × Picture)
  | 0, _, markup, cs => (markupSegment (cs.reverse ++ markup), [])
  | _ + 1, _, markup, [] => (markupSegment markup, [])
  | fuel + 1, seen, markup, c :: rest =>
    match Placeholder.ofStart? (c :: rest) with
    | none => split fuel seen (c :: markup) rest
    | some (placeholder, after) =>
      let id := String.ofList placeholder.id
      if placeholder.id.isEmpty || seen.contains id then
        let whole := (c :: rest).take (rest.length + 1 - after.length)
        split fuel seen (whole.reverse ++ markup) after
      else
        let (segments, pictures) := split fuel (id :: seen) [] after
        (markupSegment markup ++ .diagram id :: segments,
          (id, .awaited (.ofList (Text.decodeChars placeholder.body))) :: pictures)

/-- The screen that shows the page of a pass. -/
def ofMarkup (generation : Nat) (html : String) : Screen :=
  let cs := html.toList
  let (segments, pictures) := split (cs.length + 1) [] [] cs
  { generation, segments, pictures }

/-- The picture of a diagram. -/
def picture? (screen : Screen) (id : String) : Option Picture := screen.pictures.lookup id

/-- The pictures, with another one for the diagram with an id. -/
def setPicture (pictures : List (String × Picture)) (id : String) (picture : Picture) :
    List (String × Picture) :=
  pictures.map fun (key, old) => if key == id then (key, picture) else (key, old)

/-- Puts the outcome of a diagram of a pass in its place. An outcome of another pass, of an unknown
diagram, or of one whose outcome has come already changes nothing. -/
def settle (screen : Screen) (generation : Nat) (id : String)
    (outcome : Except PictureError String) : Screen × Settlement :=
  if generation != screen.generation then (screen, .stale)
  else
    match screen.picture? id with
    | some (.awaited _) =>
      ({ screen with pictures := setPicture screen.pictures id (.ofOutcome outcome) }, .applied)
    | _ => (screen, .stale)

/-- The ids of the diagrams in the order of the page. -/
def shownIds (screen : Screen) : List String :=
  screen.segments.filterMap fun segment =>
    match segment with
    | .diagram id => some id
    | .markup _ => none

/-- The diagrams that wait for their picture, in the order of the page. -/
def awaitedDiagrams (screen : Screen) : List NamedDiagram :=
  screen.shownIds.filterMap fun id =>
    match screen.picture? id with
    | some (.awaited source) => some ⟨id, source⟩
    | _ => none

/-- Whether some diagram waits for its picture. -/
def awaitsPictures (screen : Screen) : Bool := screen.pictures.any fun (_, picture) => picture.isAwaited

/-- The element of a diagram. -/
def pictureMarkup (id : String) (picture : Picture) : String :=
  let start := "<div class=\"mermaid\" id=\"" ++ Text.escapeAttribute id ++ "\""
  match picture with
  | .awaited source => start ++ ">" ++ Text.escapeText source ++ "</div>"
  | .drawn svg => start ++ " data-processed=\"true\">" ++ svg ++ "</div>"
  | .failed message =>
    start ++ " data-processed=\"true\">" ++ Diagram.errorBlock message ++ "</div>"

/-- A piece of the page as it is shown. -/
def segmentMarkup (screen : Screen) : Segment → String
  | .markup text => text
  | .diagram id => (screen.picture? id).elim "" (pictureMarkup id)

/-- The page with every picture as it is now. -/
def markup (screen : Screen) : String := String.join (screen.segments.map screen.segmentMarkup)

end Screen

end Galley
