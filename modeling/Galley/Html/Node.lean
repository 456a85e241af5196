/-!
# Trees of markup

* `Namespace`, `Attribute`, `Element`, `Node` — a tree of elements and text;
* `Node.write`, `writeAll` — a tree as markup.
-/

namespace Galley.Html

/-- Which vocabulary an element belongs to. -/
inductive Namespace where
  /-- HTML. -/
  | html
  /-- Pictures. -/
  | svg
  /-- Formulas. -/
  | mathml
  deriving Repr, DecidableEq

/-- An attribute. -/
structure Attribute where
  /-- What is written before the name, empty or with a colon at its end. -/
  scope : String
  /-- The name. -/
  name : String
  /-- The value. -/
  value : String
  deriving Repr, DecidableEq

/-- An element without its content. -/
structure Element where
  /-- The vocabulary. -/
  space : Namespace
  /-- The name. -/
  name : String
  /-- The attributes in the order of their writing. -/
  attributes : List Attribute
  deriving Repr, DecidableEq

/-- A tree of markup. -/
inductive Node where
  /-- Text. -/
  | text (text : String)
  /-- An element and what is in it. -/
  | element (element : Element) (content : List Node)

/-- How a character is written between tags. -/
def escapeTextChar (c : Char) : List Char :=
  if c = '&' then "&amp;".toList
  else if c = '\u00a0' then "&nbsp;".toList
  else if c = '<' then "&lt;".toList
  else if c = '>' then "&gt;".toList
  else [c]

/-- How a character is written in an attribute value. -/
def escapeValueChar (c : Char) : List Char :=
  if c = '\x22' then "&quot;".toList else escapeTextChar c

/-- A text as it is written between tags. -/
def escapeText (text : String) : String := .ofList (text.toList.flatMap escapeTextChar)

/-- An attribute value as it is written between double quotes. -/
def escapeValue (value : String) : String := .ofList (value.toList.flatMap escapeValueChar)

/-- Elements that have no content and no closing tag. -/
def voidNames : List String :=
  ["area", "base", "basefont", "bgsound", "br", "col", "embed", "frame", "hr", "img", "input", "keygen",
   "link", "meta", "param", "source", "track", "wbr"]

/-- Elements whose text is written as it is. -/
def verbatimNames : List String :=
  ["style", "script", "xmp", "iframe", "noembed", "noframes", "plaintext", "noscript"]

/-- Whether an element has no content and no closing tag. -/
def Element.isVoid (element : Element) : Bool :=
  element.space == .html && voidNames.contains element.name

/-- Whether the text in an element is written as it is. -/
def Element.isVerbatim (element : Element) : Bool :=
  element.space == .html && verbatimNames.contains element.name

/-- An attribute as it is written, with a space in front. -/
def Attribute.write (attr : Attribute) : String :=
  " " ++ attr.scope ++ attr.name ++ "=\"" ++ escapeValue attr.value ++ "\""

/-- The opening tag of an element. -/
def Element.openTag (element : Element) : String :=
  "<" ++ element.name ++ String.join (element.attributes.map Attribute.write) ++ ">"

mutual

/-- A tree as markup. `isVerbatim` tells whether text is written as it is. -/
def Node.write (isVerbatim : Bool) : Node → String
  | .text text => if isVerbatim then text else escapeText text
  | .element element content =>
    if element.isVoid then element.openTag
    else
      element.openTag ++ writeAll element.isVerbatim content ++ "</" ++ element.name ++ ">"

/-- Some trees as markup. -/
def writeAll (isVerbatim : Bool) : List Node → String
  | [] => ""
  | node :: rest => node.write isVerbatim ++ writeAll isVerbatim rest

end

end Galley.Html
