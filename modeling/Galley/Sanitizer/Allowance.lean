import Galley.Text.Case

/-!
# What a page may hold

* `Allowance` — elements and attributes to allow beyond the usual ones;
* `refusedTags`, `refusedAttributes` — what nothing can allow;
* `Allowance.effective` — an allowance without those;
* `Rules`, `Rules.ofAllowance` — all that is allowed.
-/

namespace Galley.Sanitizer

/-- Elements and attributes to allow beyond the usual ones. -/
structure Allowance where
  /-- Elements. -/
  extraTags : List String
  /-- Attributes, by the element. An asterisk stands for every element. -/
  extraAttributes : List (String × List String)
  deriving Repr, DecidableEq

/-- Nothing beyond the usual. -/
def Allowance.none : Allowance := ⟨[], []⟩

/-- Elements that nothing can allow. -/
def refusedTags : List String :=
  ["script", "style", "object", "embed", "base", "meta", "link", "noscript", "template", "frame",
   "frameset", "applet"]

/-- Attributes that nothing can allow. -/
def refusedAttributes : List String := ["srcdoc", "formaction"]

/-- The key for every element. -/
def anyTag : String := "*"

/-- A name with its ASCII capitals made small. -/
def lowerName (name : String) : String := .ofList (Text.lowerAscii name.toList)

/-- Whether nothing can allow an element. -/
def isRefusedTag (tag : String) : Bool := refusedTags.contains (lowerName tag)

/-- Whether nothing can allow an attribute: handlers of events and two more. -/
def isRefusedAttribute (name : String) : Bool :=
  let name := lowerName name
  "on".toList.isPrefixOf name.toList || refusedAttributes.contains name

/-- The attributes asked for under a key that can be allowed, if any are left. -/
def effectiveEntry (entry : String × List String) : Option (String × List String) :=
  let (tag, names) := entry
  if tag != anyTag && isRefusedTag tag then none
  else
    let names := names.filter fun name => !isRefusedAttribute name
    if names.isEmpty then none else some (tag, names)

/-- An allowance without what it cannot allow. -/
def Allowance.effective (allowance : Allowance) : Allowance :=
  { extraTags := allowance.extraTags.filter fun tag => !isRefusedTag tag,
    extraAttributes := allowance.extraAttributes.filterMap effectiveEntry }

/-- The elements that are usually allowed. -/
def usualTags : List String :=
  ["a", "abbr", "acronym", "area", "article", "aside", "b", "bdi", "bdo", "blockquote", "br", "caption",
   "center", "cite", "code", "col", "colgroup", "data", "dd", "del", "details", "dfn", "div", "dl", "dt",
   "em", "figcaption", "figure", "footer", "h1", "h2", "h3", "h4", "h5", "h6", "header", "hgroup", "hr",
   "i", "img", "ins", "kbd", "li", "map", "mark", "nav", "ol", "p", "pre", "q", "rp", "rt", "rtc", "ruby",
   "s", "samp", "small", "span", "strike", "strong", "sub", "summary", "sup", "table", "tbody", "td",
   "th", "thead", "time", "tr", "tt", "u", "ul", "var", "wbr"]

/-- Elements that pages of formulas, diagrams and tasks need. -/
def pageTags : List String := ["input", "section", "iframe", "nav", "svg", "path", "line"]

/-- The attributes that are usually allowed everywhere. -/
def usualEverywhere : List String := ["lang", "title", "class", "id"]

/-- The attributes of the cells of a table. -/
def cellAttributes : List String := ["align", "char", "charoff"]

/-- The attributes that are usually allowed on some elements. -/
def usualAttributes : List (String × List String) :=
  [("a", ["href", "hreflang"]), ("bdo", ["dir"]), ("blockquote", ["cite"]), ("q", ["cite"]),
   ("col", "span" :: cellAttributes), ("colgroup", "span" :: cellAttributes),
   ("del", ["cite", "datetime"]), ("ins", ["cite", "datetime"]), ("hr", ["align", "size", "width"]),
   ("img", ["align", "alt", "height", "src", "width"]), ("ol", ["start"]),
   ("table", "summary" :: cellAttributes), ("tbody", cellAttributes), ("tfoot", cellAttributes),
   ("thead", cellAttributes), ("tr", cellAttributes),
   ("td", ["colspan", "headers", "rowspan"] ++ cellAttributes),
   ("th", ["colspan", "headers", "rowspan", "scope"] ++ cellAttributes),
   ("input", ["type", "checked", "disabled"]),
   ("iframe", ["src", "width", "height", "allow", "allowfullscreen", "frameborder", "scrolling", "title"]),
   ("span", ["style", "aria-hidden"]),
   ("svg", ["xmlns", "width", "height", "viewBox", "viewbox", "preserveAspectRatio",
     "preserveaspectratio", "style"]),
   ("path", ["d"]), ("line", ["x1", "y1", "x2", "y2", "stroke-width"])]

/-- All that is allowed. -/
structure Rules where
  /-- Elements. -/
  tags : List String
  /-- Attributes of every element. -/
  everywhere : List String
  /-- Attributes by the element. An element may have several entries. -/
  attributes : List (String × List String)
  deriving Repr, DecidableEq

namespace Rules

/-- What is allowed with an allowance, which holds nothing that cannot be allowed. -/
def ofAllowance (allowance : Allowance) : Rules :=
  let (general, special) := allowance.extraAttributes.partition fun (tag, _) => tag == anyTag
  { tags := usualTags ++ pageTags ++ allowance.extraTags,
    everywhere := usualEverywhere ++ general.flatMap Prod.snd,
    attributes := usualAttributes ++ special }

/-- Whether an element is allowed. -/
def allowsTag (rules : Rules) (tag : String) : Bool := rules.tags.contains tag

/-- Whether an attribute of an element is allowed. -/
def allowsAttribute (rules : Rules) (tag name : String) : Bool :=
  rules.everywhere.contains name ||
    rules.attributes.any fun (key, names) => key == tag && names.contains name

/-- Links get a `rel` attribute of their own. No rule may allow another one. -/
def relName : String := "rel"

/-- Whether the rules leave the `rel` attribute of links alone. -/
def leavesRel (rules : Rules) : Bool :=
  !rules.everywhere.contains relName &&
    !rules.attributes.any fun (key, names) => key == "a" && names.contains relName

end Rules

end Galley.Sanitizer
