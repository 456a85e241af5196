import Galley.Code.Language
import Galley.Text.Escape

/-!
# Highlighting

* `Highlighting` — turns code into markup for the languages it knows;
* `HighlightingError` — why it did not;
* `plainHighlighting` — knows the languages of `Galley.Code.Language` and marks code as plain text.
-/

namespace Galley.Code

/-- Why code was not highlighted. -/
inductive HighlightingError where
  /-- The language is not known. -/
  | unsupported (language : String)
  deriving Repr, DecidableEq

/-- An error in words. -/
def HighlightingError.message : HighlightingError → String
  | unsupported language => "language not supported: " ++ language

/-- Turns code into markup that goes inside a code element. -/
structure Highlighting where
  /-- Whether code in a language can be highlighted. -/
  supports : String → Bool
  /-- The markup of code in a language. -/
  highlight : (code language : String) → Except HighlightingError String

/-- How a character of highlighted code is written. -/
def escapeCodeChar (c : Char) : List Char :=
  if c = '\x27' then "&#39;".toList else Text.escapeAttributeChar c

/-- The markup of code as plain text. Empty code has none. -/
def plainMarkup (code : String) : String :=
  if code.isEmpty then ""
  else
    "<span class=\"hl-text hl-plain\">" ++ String.ofList (code.toList.flatMap escapeCodeChar) ++
      "</span>"

/-- Knows the languages of the tables. -/
def plainHighlighting : Highlighting where
  supports := isKnownLanguage
  highlight code language :=
    if isKnownLanguage language then .ok (plainMarkup code) else .error (.unsupported language)

end Galley.Code
