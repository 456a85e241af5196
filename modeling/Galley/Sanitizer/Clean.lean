import Galley.Html.Rules
import Galley.Sanitizer.Address
import Galley.Sanitizer.Allowance

/-!
# Clean markup

Markup is read into trees, and only what is allowed is written again. Of an element that is not allowed,
what is in it stays; of programs and style sheets nothing stays.

* `isHtmlName`, `staysIn` — whether an element may stand in another one;
* `cleanNode`, `cleanAll` — clean trees;
* `SanitizerError`, `clean` — clean markup.
-/

namespace Galley.Sanitizer

open Galley.Html (Attribute Element Namespace Node)

/-- Elements of which nothing stays. -/
def droppedTags : List String := ["script", "style"]

/-- The elements of pictures. -/
def svgNames : List String :=
  ["a", "animate", "animateMotion", "animateTransform", "circle", "clipPath", "defs", "desc", "discard",
   "ellipse", "feBlend", "feColorMatrix", "feComponentTransfer", "feComposite", "feConvolveMatrix",
   "feDiffuseLighting", "feDisplacementMap", "feDistantLight", "feDropShadow", "feFlood", "feFuncA",
   "feFuncB", "feFuncG", "feFuncR", "feGaussianBlur", "feImage", "feMerge", "feMergeNode",
   "feMorphology", "feOffset", "fePointLight", "feSpecularLighting", "feSpotLight", "feTile",
   "feTurbulence", "filter", "font", "foreignObject", "g", "image", "line", "linearGradient", "marker",
   "mask", "metadata", "mpath", "path", "pattern", "polygon", "polyline", "radialGradient", "rect",
   "script", "set", "stop", "style", "svg", "switch", "symbol", "text", "textPath", "title", "tspan",
   "use", "view"]

/-- The elements of formulas. -/
def mathNames : List String :=
  ["abs", "and", "annotation", "annotation-xml", "apply", "approx", "arccos", "arccosh", "arccot",
   "arccoth", "arccsc", "arccsch", "arcsec", "arcsech", "arcsin", "arcsinh", "arctan", "arctanh", "arg",
   "bind", "bvar", "card", "cartesianproduct", "cbytes", "ceiling", "cerror", "ci", "cn", "codomain",
   "complexes", "compose", "condition", "conjugate", "cos", "cosh", "cot", "coth", "cs", "csc", "csch",
   "csymbol", "curl", "declare", "degree", "determinant", "diff", "divergence", "divide", "domain",
   "domainofapplication", "emptyset", "eq", "equivalent", "eulergamma", "exists", "exp", "exponentiale",
   "factorial", "factorof", "false", "floor", "fn", "forall", "gcd", "geq", "grad", "gt", "ident",
   "image", "imaginary", "imaginaryi", "implies", "in", "infinity", "int", "integers", "intersect",
   "interval", "inverse", "lambda", "laplacian", "lcm", "leq", "limit", "list", "ln", "log", "logbase",
   "lowlimit", "lt", "maction", "maligngroup", "malignmark", "math", "matrix", "matrixrow", "max", "mean",
   "median", "menclose", "merror", "mfenced", "mfrac", "mfraction", "mglyph", "mi", "min", "minus",
   "mlabeledtr", "mlongdiv", "mmultiscripts", "mn", "mo", "mode", "moment", "momentabout", "mover",
   "mpadded", "mphantom", "mprescripts", "mroot", "mrow", "ms", "mscarries", "mscarry", "msgroup",
   "msline", "mspace", "msqrt", "msrow", "mstack", "mstyle", "msub", "msubsup", "msup", "mtable", "mtd",
   "mtext", "mtr", "munder", "munderover", "naturalnumbers", "neq", "none", "not", "notanumber", "notin",
   "notprsubset", "notsubset", "or", "otherwise", "outerproduct", "partialdiff", "pi", "piece",
   "piecewise", "plus", "power", "primes", "product", "prsubset", "quotient", "rationals", "real",
   "reals", "reln", "rem", "root", "scalarproduct", "sdev", "sec", "sech", "selector", "semantics", "sep",
   "set", "setdiff", "share", "sin", "sinh", "span", "subset", "sum", "tan", "tanh", "tendsto", "times",
   "transpose", "true", "union", "uplimit", "variance", "vector", "vectorproduct", "xor"]

/-- Names that are in use for HTML as well as for foreign elements. -/
def sharedNames : List String := ["title", "style", "font", "a", "script", "span"]

/-- Whether an element of HTML has a name that belongs to HTML. -/
def isHtmlName (name : String) : Bool :=
  sharedNames.contains name || !(svgNames.contains name || mathNames.contains name)

/-- Whether an element may stand in another one. Its name must belong to its vocabulary, and the vocabulary
may change only where another parser would see it change too. -/
def staysIn (parent child : Element) : Bool :=
  let isKnown := child.space != .html || isHtmlName child.name
  match parent.space, child.space with
  | .html, .svg => child.name == "svg"
  | .html, .mathml => child.name == "math"
  | .mathml, .mathml => mathNames.contains child.name
  | .mathml, _ =>
    ["mi", "mo", "mn", "ms", "mtext", "annotation-xml"].contains parent.name && isKnown
  | .svg, .svg => svgNames.contains child.name
  | .svg, _ => parent.name == "foreignObject" && isKnown
  | .html, .html => isKnown

/-- Whether the value of an attribute is an address. -/
def isAddressAttribute (tag name : String) : Bool :=
  name == "href" || name == "src" || (tag == "form" && name == "action") ||
    (tag == "object" && name == "data") ||
    ((tag == "button" || tag == "input") && name == "formaction") || (tag == "a" && name == "ping") ||
    (tag == "video" && name == "poster")

/-- Whether an attribute of an element stays. -/
def keepsAttribute (rules : Rules) (tag : String) (attr : Attribute) : Bool :=
  rules.allowsAttribute tag attr.name &&
    (!isAddressAttribute tag attr.name || isSafeAddress attr.value)

/-- The attribute that every link gets. -/
def linkRel : Attribute := ⟨"", Rules.relName, "noopener noreferrer"⟩

/-- An element with the attributes that stay. -/
def cleanElement (rules : Rules) (element : Element) : Element :=
  let kept := element.attributes.filter (keepsAttribute rules element.name)
  { element with attributes := if element.name == "a" then kept ++ [linkRel] else kept }

mutual

/-- What stays of a tree. `parent` is the element that it stands in. -/
def cleanNode (rules : Rules) (parent : Element) : Node → List Node
  | .text text => [.text text]
  | .element element content =>
    if droppedTags.contains element.name || !staysIn parent element then []
    else if rules.allowsTag element.name then
      [.element (cleanElement rules element) (cleanAll rules element content)]
    else cleanAll rules parent content

/-- What stays of some trees. -/
def cleanAll (rules : Rules) (parent : Element) : List Node → List Node
  | [] => []
  | node :: rest => cleanNode rules parent node ++ cleanAll rules parent rest

end

/-- The element that all markup stands in. -/
def rootElement : Element := ⟨.html, "html", []⟩

/-- Why markup cannot be made clean. -/
inductive SanitizerError where
  /-- It is to allow the attribute that links get anyway. -/
  | allowsRel
  deriving Repr, DecidableEq

/-- Clean markup. The allowance may hold what cannot be allowed; that is ignored. -/
def clean (allowance : Allowance) (markup : String) : Except SanitizerError String :=
  let rules := Rules.ofAllowance allowance.effective
  if rules.leavesRel then
    .ok (Html.writeAll false (cleanAll rules rootElement (Html.parseFragment markup)))
  else .error .allowsRel

end Galley.Sanitizer
