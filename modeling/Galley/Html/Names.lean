import Galley.Html.Node

/-!
# Names with a meaning

The names that the rules for building trees speak of.

* `specialNames`, `impliedEnds`, `headingNames` — classes of elements;
* `isTextIntegration` — where HTML may stand in formulas;
* `svgTags`, `svgAttributes`, `foreignAttribute` — the spelling of foreign names.
-/

namespace Galley.Html

/-- Elements that end the search for an element to close. -/
def specialNames : List String :=
  ["address", "applet", "area", "article", "aside", "base", "basefont", "bgsound", "blockquote", "body",
   "br", "button", "caption", "center", "col", "colgroup", "dd", "details", "dir", "div", "dl", "dt",
   "embed", "fieldset", "figcaption", "figure", "footer", "form", "frame", "frameset", "h1", "h2", "h3",
   "h4", "h5", "h6", "head", "header", "hgroup", "hr", "html", "iframe", "img", "input", "keygen", "li",
   "link", "listing", "main", "marquee", "menu", "meta", "nav", "noembed", "noframes", "noscript",
   "object", "ol", "p", "param", "plaintext", "pre", "script", "search", "section", "select", "source",
   "style", "summary", "table", "tbody", "td", "template", "textarea", "tfoot", "th", "thead", "title",
   "tr", "track", "ul", "wbr", "xmp"]

/-- Foreign elements that end the search for an element to close, and elements of formulas in which text
is text. -/
def mathTextNames : List String := ["mi", "mo", "mn", "ms", "mtext"]

/-- Foreign elements in which HTML can stand. -/
def svgTextNames : List String := ["foreignObject", "desc", "title"]

/-- Elements that end without a closing tag. -/
def impliedEnds : List String :=
  ["dd", "dt", "li", "optgroup", "option", "p", "rb", "rp", "rt", "rtc"]

/-- More elements that end without a closing tag where a template ends. -/
def templateEnds : List String :=
  ["caption", "colgroup", "tbody", "td", "tfoot", "th", "thead", "tr"] ++ impliedEnds

/-- The headings. -/
def headingNames : List String := ["h1", "h2", "h3", "h4", "h5", "h6"]

/-- Blocks that end an open paragraph. -/
def blockNames : List String :=
  ["address", "article", "aside", "blockquote", "center", "details", "dialog", "dir", "div", "dl",
   "fieldset", "figcaption", "figure", "footer", "header", "hgroup", "main", "menu", "nav", "ol", "p",
   "search", "section", "summary", "ul"]

/-- Elements that format text and go on across the ends of blocks. -/
def formattingNames : List String :=
  ["b", "big", "code", "em", "font", "i", "s", "small", "strike", "strong", "tt", "u"]

/-- Elements that take part in tables. -/
def tableParts : List String :=
  ["caption", "col", "colgroup", "tbody", "td", "tfoot", "th", "thead", "tr"]

/-- Elements that belong into the head of a page. -/
def headNames : List String :=
  ["base", "basefont", "bgsound", "link", "meta", "noframes", "script", "style", "template", "title"]

/-- Tags that end foreign content. -/
def breakoutNames : List String :=
  ["b", "big", "blockquote", "body", "br", "center", "code", "dd", "div", "dl", "dt", "em", "embed",
   "h1", "h2", "h3", "h4", "h5", "h6", "head", "hr", "i", "img", "li", "listing", "menu", "meta",
   "nobr", "ol", "p", "pre", "ruby", "s", "small", "span", "strong", "strike", "sub", "sup", "table",
   "tt", "u", "ul", "var"]

/-- The elements of pictures whose names have capitals. -/
def svgTags : List String :=
  ["altGlyph", "altGlyphDef", "altGlyphItem", "animateColor", "animateMotion", "animateTransform",
   "clipPath", "feBlend", "feColorMatrix", "feComponentTransfer", "feComposite", "feConvolveMatrix",
   "feDiffuseLighting", "feDisplacementMap", "feDistantLight", "feDropShadow", "feFlood", "feFuncA",
   "feFuncB", "feFuncG", "feFuncR", "feGaussianBlur", "feImage", "feMerge", "feMergeNode",
   "feMorphology", "feOffset", "fePointLight", "feSpecularLighting", "feSpotLight", "feTile",
   "feTurbulence", "foreignObject", "glyphRef", "linearGradient", "radialGradient", "textPath"]

/-- The attributes of pictures whose names have capitals. -/
def svgAttributes : List String :=
  ["attributeName", "attributeType", "baseFrequency", "baseProfile", "calcMode", "clipPathUnits",
   "diffuseConstant", "edgeMode", "filterUnits", "glyphRef", "gradientTransform", "gradientUnits",
   "kernelMatrix", "kernelUnitLength", "keyPoints", "keySplines", "keyTimes", "lengthAdjust",
   "limitingConeAngle", "markerHeight", "markerUnits", "markerWidth", "maskContentUnits", "maskUnits",
   "numOctaves", "pathLength", "patternContentUnits", "patternTransform", "patternUnits",
   "pointsAtX", "pointsAtY", "pointsAtZ", "preserveAlpha", "preserveAspectRatio", "primitiveUnits",
   "refX", "refY", "repeatCount", "repeatDur", "requiredExtensions", "requiredFeatures",
   "specularConstant", "specularExponent", "spreadMethod", "startOffset", "stdDeviation", "stitchTiles",
   "surfaceScale", "systemLanguage", "tableValues", "targetX", "targetY", "textLength", "viewBox",
   "viewTarget", "xChannelSelector", "yChannelSelector", "zoomAndPan"]

/-- A name with its capitals, if it is one of some names with capitals. -/
def withCapitals (names : List String) (name : String) : String :=
  (names.find? fun known => known.map Char.toLower == name).getD name

/-- Names of foreign attributes that are written with a scope. -/
def scopedAttributes : List (String × String × String) :=
  ["actuate", "arcrole", "href", "role", "show", "title", "type"].map
      (fun name => ("xlink:" ++ name, "xlink:", name)) ++
    [("xml:lang", "xml:", "lang"), ("xml:space", "xml:", "space"), ("xmlns:xlink", "xmlns:", "xlink")]

/-- An attribute of a foreign element. -/
def foreignAttribute (space : Namespace) (attr : Attribute) : Attribute :=
  match scopedAttributes.lookup attr.name with
  | some (scope, name) => { attr with scope, name }
  | none =>
    match space with
    | .svg => { attr with name := withCapitals svgAttributes attr.name }
    | .mathml => { attr with name := withCapitals ["definitionURL"] attr.name }
    | .html => attr

/-- The name of a foreign element. -/
def foreignName (space : Namespace) (name : String) : String :=
  if space == .svg then withCapitals svgTags name else name

end Galley.Html
