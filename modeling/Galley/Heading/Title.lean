import Galley.Text.Blank

/-!
# Document titles

The title of a document names the file it is written to.

* `titleText?` — the text of the first top heading;
* `titleOf` — that text, safe in a file name.
-/

namespace Galley.Heading

/-- The text of the first line that begins with `#` and a blank. The blanks after the `#` may run over
line ends. `atLineStart` says whether a line starts here. -/
def titleTextFrom? : Bool → List Char → Option (List Char)
  | _, [] => none
  | atLineStart, c :: rest =>
    match atLineStart && c == '#' && (rest.head?.map Text.isBlank).getD false,
        Text.trimStart rest with
    | true, first :: more => some ((first :: more).takeWhile (· != '\n'))
    | _, _ => titleTextFrom? (c == '\n') rest

/-- The text of the first top heading of a document. -/
def titleText? (source : String) : Option (List Char) := titleTextFrom? true source.toList

/-- Whether a character is refused in file names. -/
def isHostile (c : Char) : Bool :=
  c == '\\' || c == '/' || c == ':' || c == '*' || c == '?' || c == '\x22' || c == '<' || c == '>' ||
    c == '|' || c == '\n' || c == '\r' || c == '\t'

/-- The title of a document that has no other. -/
def untitled : String := "document"

/-- The title of a document: the text of its first top heading with a space for each character that is
refused in file names. -/
def titleOf (source : String) : String :=
  match titleText? source with
  | none => untitled
  | some text =>
    let title := Text.trim (text.map fun c => if isHostile c then ' ' else c)
    if title.isEmpty then untitled else .ofList title

end Galley.Heading
