import Galley.Markdown.Emphasis
import Galley.Markdown.RawHtml
import Galley.Markdown.Token

/-!
# The content of a block

From tokens to the pieces of the line. Code, markup and links are found first, from left to right;
emphasis is paired up inside each link and around all of them.

* `codeText` — what a code span holds;
* `inlineLink?`, `referenceLabel?` — what follows a closing bracket;
* `Bracket` — an open bracket and what was before it;
* `Content.nodes` — the pieces of a block.
-/

namespace Galley.Markdown

/-- The text of a code span: its line breaks are spaces, and it loses a space at each end if it has both
and more than spaces. In a cell a bar behind a backslash is a bar. -/
def codeText (inCell : Bool) (cs : List Char) : List Char :=
  let text := spaced cs
  match text, text.reverse with
  | ' ' :: _, ' ' :: _ => if text.all (· == ' ') then text else (text.drop 1).dropLast
  | _, _ => text
where
  /-- The text with spaces for line breaks. -/
  spaced : List Char → List Char
    | [] => []
    | '\r' :: '\n' :: rest => ' ' :: spaced rest
    | '\\' :: '|' :: rest => if inCell then '|' :: spaced rest else '\\' :: '|' :: spaced rest
    | c :: rest => (if isBreak c then ' ' else c) :: spaced rest

/-- The text after blanks and at most one line break. -/
def dropSeparator (cs : List Char) : List Char :=
  let rest := cs.dropWhile isSpace
  match rest with
  | [] => []
  | _ => ((dropLineBreak? rest).getD rest).dropWhile isSpace

/-- The text of a title up to its closing quote, and the text after that. `fuel` bounds the steps; each
reads at least one character. -/
def titleText? (opening closing : Char) : Nat → List Char → Option (List Char × List Char)
  | 0, _ => none
  | _ + 1, [] => none
  | fuel + 1, c :: rest =>
    let take (chars after : List Char) : Option (List Char × List Char) :=
      (titleText? opening closing fuel after).map fun (inner, tail) => (chars ++ inner, tail)
    if c == closing then some ([], rest)
    else if c == opening then none
    else if isBreak c then
      match dropLineBreak? (c :: rest) with
      | some next => take ['\n'] (next.dropWhile fun d => d == ' ' || d == '\t')
      | none => none
    else if c == '&' then
      match reference? rest with
      | some (chars, after) => take chars after
      | none => take [c] rest
    else if c == '\\' then
      match rest with
      | d :: after => if Text.isAsciiPunctuation d then take [d] after else take [c] rest
      | [] => none
    else take [c] rest

/-- The title that a text begins with, and the text after it. -/
def title? : List Char → Option (List Char × List Char)
  | [] => none
  | c :: rest =>
    match titleEnd? c with
    | some closing => titleText? c closing (rest.length + 1) rest
    | none => none

/-- The target in parentheses that a text begins with, and the text after it. -/
def inlineTarget? : List Char → Option (LinkTarget × List Char)
  | '(' :: cs => do
    let (destination, rest) ← destination? (dropSeparator cs)
    let rest := dropSeparator rest
    let (title, rest) := match title? rest with
      | some (title, after) => (title, dropSeparator after)
      | none => ([], rest)
    match rest with
    | ')' :: after => some (⟨.ofList (unescape destination), .ofList title⟩, after)
    | _ => none
  | _ => none

/-- A label as it stands in a reference. -/
inductive ReferenceLabel where
  /-- The label of a link. -/
  | link (label : List Char)
  /-- The label of a footnote. -/
  | footnote (label : List Char)
  deriving Repr, DecidableEq

/-- The label in brackets that a text begins with, and the text after it. The label of a footnote stands on
one line. -/
def referenceLabel? : List Char → Option (ReferenceLabel × List Char)
  | '[' :: rest =>
    let footnote? : Option (List Char × List Char) := match rest with
      | '^' :: ']' :: _ => none
      | '^' :: body => label? (fun _ => none) body
      | _ => none
    match footnote? with
    | some (label, after) => some (.footnote label, after)
    | none => (label? some rest).map fun (label, after) => (.link label, after)
  | _ => none

/-- An open bracket. -/
structure Bracket where
  /-- Whether it begins an image. -/
  isImage : Bool
  /-- Whether a link may begin here. Within a link none may. -/
  isActive : Bool
  /-- Where it stands; the bracket itself, without an exclamation mark. -/
  place : Nat
  /-- The pieces before it, the latest first. -/
  outside : List Piece

/-- The bracket as text. -/
def Bracket.asText (bracket : Bracket) : Piece :=
  .node (.text (if bracket.isImage then ['!', '['] else ['[']))

/-- The pieces before and after a bracket that turned out to be text, the latest first. -/
def Bracket.join (bracket : Bracket) (inside : List Piece) : List Piece :=
  inside ++ bracket.asText :: bracket.outside

/-- The pieces before and after some brackets that turned out to be text, the latest first. The first
bracket is the innermost. -/
def joinBrackets (brackets : List Bracket) (inside : List Piece) : List Piece :=
  brackets.foldl (fun pieces bracket => bracket.join pieces) inside

/-- The tokens from a place on. A token that begins before it loses its start. -/
def dropTokens (place : Nat) : List Token → List Token
  | [] => []
  | token :: rest =>
    if token.stop ≤ place then dropTokens place rest
    else { token with start := max token.start place } :: rest

/-- Dropping tokens leaves no more of them. -/
theorem length_dropTokens_le (place : Nat) (ts : List Token) :
    (dropTokens place ts).length ≤ ts.length := by
  induction ts with
  | nil => simp [dropTokens]
  | cons t rest ih =>
    unfold dropTokens
    split
    · exact Nat.le_succ_of_le ih
    · simp

/-- The first run of a number of grave accents, and the tokens after it. -/
def closingGraves? (length : Nat) : List Token → Option (Token × List Token)
  | [] => none
  | token :: rest =>
    match token.kind with
    | .graves n _ => if n == length then some (token, rest) else closingGraves? length rest
    | _ => closingGraves? length rest

/-- After the closing run there are fewer tokens. -/
theorem length_of_closingGraves? {length : Nat} {ts rest : List Token} {t : Token}
    (h : closingGraves? length ts = some (t, rest)) : rest.length < ts.length := by
  induction ts with
  | nil => simp [closingGraves?] at h
  | cons u tail ih =>
    unfold closingGraves? at h
    split at h
    · split at h
      · simp only [Option.some.injEq, Prod.mk.injEq] at h
        simp [h.2]
      · exact Nat.lt_succ_of_lt (ih h)
    · exact Nat.lt_succ_of_lt (ih h)

/-- Markup or an address after an opening bracket at `place`, and where it ends. -/
def angleNode? (passage : Passage) (place : Nat) : Option (Node × Nat) :=
  let cs := passage.textFrom (place + 1)
  match RawHtml.autolink? cs with
  | some (address, mailbox, rest) =>
    some (.span (.link mailbox ⟨.ofList address, ""⟩) [.text address], passage.placeOf rest)
  | none =>
    match RawHtml.special? cs with
    | some rest =>
      let stop := passage.placeOf rest
      some (.leaf (.inlineHtml (.ofList (passage.sliceWithSkipped place stop))), stop)
    | none =>
      (RawHtml.tag? true cs).map fun rest =>
        let stop := passage.placeOf rest
        (.leaf (.inlineHtml (.ofList (passage.slice place stop))), stop)

/-- What a closing bracket makes of an open one. -/
inductive Closing where
  /-- A link or an image that ends at a place. -/
  | target (target : LinkTarget) (stop : Nat)
  /-- A reference to a footnote. -/
  | footnote (label : List Char)
  /-- Nothing. -/
  | none

/-- What the brackets at two places make, with what follows the closing one: a target in parentheses, a
label in brackets, or the text in the brackets as a label. -/
def closing (passage : Passage) (definitions : Definitions) (opening stop : Nat) : Closing :=
  let after := passage.textFrom stop
  match inlineTarget? after with
  | some (target, rest) => .target target (passage.placeOf rest)
  | Option.none =>
    let own (stop : Nat) : Closing :=
      match referenceLabel? (passage.slice opening stop) with
      | some (.link label, []) =>
        match definitions.link? label with
        | some target => .target target (if "[]".toList.isPrefixOf after then stop + 2 else stop)
        | Option.none => .none
      | some (.footnote label, []) =>
        if definitions.hasFootnote label then .footnote label else .none
      | _ => .none
    match referenceLabel? after with
    | some (.link label, rest) =>
      match definitions.link? label with
      | some target => .target target (passage.placeOf rest)
      | Option.none => .none
    | _ => own stop

/-- The pieces of some tokens, the latest first. `brackets` are the open brackets, the innermost first,
and `inside` the pieces since then. -/
def resolve (passage : Passage) (definitions : Definitions) (brackets : List Bracket)
    (inside : List Piece) : List Token → List Piece
  | [] => joinBrackets brackets inside
  | token :: rest =>
    let go (node : Node) : List Piece :=
      resolve passage definitions brackets (.node node :: inside) rest
    match token.kind with
    | .text => go (.text (passage.slice token.start token.stop))
    | .reference chars => go (.text chars)
    | .softBreak => go (.leaf .softBreak)
    | .hardBreak => go (.leaf .hardBreak)
    | .delimiters mark length opens closes =>
      resolve passage definitions brackets (.delimiters ⟨mark, length, opens, closes⟩ :: inside) rest
    | .graves length escaped =>
      let sought := if escaped then length - 1 else length
      match h : if sought == 0 then Option.none else closingGraves? sought rest with
      | some (found, after) =>
        have : after.length < rest.length := by
          split at h
          · simp at h
          · exact length_of_closingGraves? h
        let code := codeText passage.inCell (passage.slice token.stop found.start)
        let text : List Piece := if escaped then [.node (.text ['\x60'])] else []
        resolve passage definitions brackets (.node (.leaf (.code (.ofList code))) :: (text ++ inside))
          after
      | Option.none => go (.text (List.replicate length '\x60'))
    | .angle =>
      match angleNode? passage token.start with
      | some (node, stop) =>
        have := length_dropTokens_le stop rest
        resolve passage definitions brackets (.node node :: inside) (dropTokens stop rest)
      | Option.none => go (.text ['<'])
    | .opening isImage =>
      resolve passage definitions (⟨isImage, true, token.stop - 1, inside⟩ :: brackets) [] rest
    | .closing =>
      match brackets with
      | [] => go (.text [']'])
      | bracket :: outer =>
        let made := if bracket.isActive then closing passage definitions bracket.place token.stop else .none
        match made with
        | .target target stop =>
          have := length_dropTokens_le stop rest
          let tag : Tag := if bracket.isImage then .image target else .link false target
          let node : Node := .span tag (pairDelimiters inside.reverse)
          let outer :=
            if bracket.isImage then outer
            else outer.map fun b => if b.isImage then b else { b with isActive := false }
          resolve passage definitions outer (.node node :: bracket.outside) (dropTokens stop rest)
        | .footnote label =>
          let mark : List Piece := if bracket.isImage then [.node (.text ['!'])] else []
          let before := joinBrackets outer (mark ++ bracket.outside)
          resolve passage definitions []
            (.node (.leaf (.footnoteReference (.ofList label))) :: before) rest
        | .none =>
          resolve passage definitions outer (.node (.text [']']) :: bracket.join inside) rest
termination_by ts => ts.length
decreasing_by all_goals (simp only [List.length_cons]; omega)

/-- The pieces of a block, the box in front of it among them. -/
def Content.nodes (definitions : Definitions) (content : Content) : List Node :=
  let pieces := resolve (.ofContent content) definitions [] [] (tokens content)
  let nodes := pairDelimiters pieces.reverse
  match content.task with
  | some checked => .leaf (.taskMarker checked) :: nodes
  | none => nodes

end Galley.Markdown
