import Galley.Math.Check
import Galley.Source.Extraction
import Galley.Text.Escape

/-!
# Formulas in markup

* `Typesetter` — turns a formula into markup, or says what is wrong with it;
* `markupTypesetter` — the formula, checked and escaped, for a typesetter in the reader's browser;
* `errorMarkup` — a marker with the formula as it was written;
* `formulaMarkup` — a formula in its place; errors become markers.
-/

namespace Galley.Math

/-- Turns TeX into markup, on display or in the line. -/
abbrev Typesetter := String → Bool → Except FormulaError String

/-- Escaped TeX between the delimiters of a typesetter in the browser. -/
def markupTypesetter : Typesetter := fun tex display => do
  check tex
  if display then
    return "<span class=\"math math-display\">\\[" ++ Text.escapeText tex ++ "\\]</span>"
  else
    return "<span class=\"math math-inline\">\\(" ++ Text.escapeText tex ++ "\\)</span>"

/-- A visible marker around the text of a formula, with the error as its title. -/
def errorMarkup (source : String) (error : FormulaError) : String :=
  "<span class=\"math-error\" title=\"" ++ Text.escapeAttribute error.message ++ "\">" ++
    Text.escapeText source ++ "</span>"

/-- The markup of a formula in its place. `source` is the formula with its delimiters. -/
def formulaMarkup (typeset : Typesetter) (formula : Source.Formula) (source : String)
    (standing : Source.Standing) : String :=
  let tex := String.ofList (Text.trim formula.tex.toList)
  match typeset tex formula.display with
  | .ok markup =>
    if formula.display && standing == .standalone then
      "<div class=\"math-block\">" ++ markup ++ "</div>"
    else
      markup
  | .error error =>
    let marker := errorMarkup source error
    if standing == .standalone then "<p>" ++ marker ++ "</p>" else marker

end Galley.Math
