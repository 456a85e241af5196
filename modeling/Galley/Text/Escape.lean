/-!
# Escaped text

Text and attribute values as HTML writes them.

* `escapeText` — for text between tags;
* `escapeAttribute` — for an attribute value between double quotes.
-/

namespace Galley.Text

/-- How a character is written between tags. -/
def escapeTextChar (c : Char) : List Char :=
  if c = '&' then "&amp;".toList
  else if c = '<' then "&lt;".toList
  else if c = '>' then "&gt;".toList
  else [c]

/-- How a character is written in an attribute value between double quotes. -/
def escapeAttributeChar (c : Char) : List Char :=
  if c = '\x22' then "&quot;".toList else escapeTextChar c

/-- A text as it is written between tags. -/
def escapeText (text : String) : String := .ofList (text.toList.flatMap escapeTextChar)

/-- A text as it is written in an attribute value between double quotes. -/
def escapeAttribute (text : String) : String := .ofList (text.toList.flatMap escapeAttributeChar)

end Galley.Text
