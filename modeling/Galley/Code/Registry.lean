import Galley.Code.Highlighting
import Galley.Diagram.Id
import Galley.Text.Blank
import Galley.Text.Escape

/-!
# Fenced code in the page

What a fenced block becomes depends on its language, the first word after the fence.

* `CodeBlock` — a block as it was written;
* `PassDiagrams` — the diagrams of the pass so far;
* `Handler` — what can be made of a block: highlighted code, or a place for a diagram;
* `Registry` — which handler a language gets;
* `Registry.render` — the markup of a block.
-/

namespace Galley.Code

open Galley.Diagram (Naming NamedDiagram Namer)

/-- A fenced block as it was written. -/
structure CodeBlock where
  /-- What stands after the opening fence. -/
  info : String
  /-- The code. -/
  code : String
  deriving Repr, DecidableEq

/-- The first word after the fence. -/
def CodeBlock.language? (block : CodeBlock) : Option String :=
  (Text.words block.info.toList).head?.map String.ofList

/-- The diagrams of a pass so far. -/
structure PassDiagrams where
  /-- Names the next diagram. -/
  ids : Namer
  /-- The diagrams, the latest first. -/
  reversed : List NamedDiagram
  deriving Repr

namespace PassDiagrams

/-- A pass without diagrams yet. -/
def ofIds (ids : Naming) : PassDiagrams := ⟨.ofIds ids, []⟩

/-- The diagrams in the order in which they were found. -/
def nodes (diagrams : PassDiagrams) : List NamedDiagram := diagrams.reversed.reverse

end PassDiagrams

/-- What is made of a fenced block. -/
inductive Handler where
  /-- Code, highlighted if its language is known. -/
  | highlight (highlighting : Highlighting)
  /-- A place for a diagram. -/
  | diagram

/-- The markup of highlighted code. Code that is not highlighted is written escaped. -/
def highlightMarkup (highlighting : Highlighting) (block : CodeBlock) : String :=
  match block.language? with
  | none => "<pre><code class=\"hljs\">" ++ Text.escapeText block.code ++ "</code></pre>\n"
  | some language =>
    let body :=
      if highlighting.supports language then
        match highlighting.highlight block.code language with
        | .ok markup => markup
        | .error _ => Text.escapeText block.code
      else
        Text.escapeText block.code
    "<pre><code class=\"hljs language-" ++ Text.escapeAttribute language ++ "\">" ++ body ++
      "</code></pre>\n"

/-- The place of a diagram in the page. -/
def diagramMarkup (id code : String) : String :=
  "<div class=\"mermaid\" id=\"" ++ Text.escapeAttribute id ++ "\">" ++ Text.escapeText code ++
    "</div>\n"

/-- The markup that a handler makes of a block, and the diagrams after it. -/
def Handler.render (handler : Handler) (block : CodeBlock) (diagrams : PassDiagrams) :
    String × PassDiagrams :=
  match handler with
  | highlight highlighting => (highlightMarkup highlighting block, diagrams)
  | diagram =>
    let (id, ids) := diagrams.ids.next
    (diagramMarkup id block.code, ⟨ids, ⟨id, block.code⟩ :: diagrams.reversed⟩)

/-- Which handler a language gets. -/
structure Registry where
  /-- The handlers of some languages, whose tags are in lower case. -/
  handlers : List (String × Handler)
  /-- The handler of all others. -/
  fallback : Handler

namespace Registry

/-- A tag as it is looked up. -/
def tagKey (language : String) : String := .ofList (Text.lowerAscii language.toList)

/-- A registry with diagrams under some tags and highlighted code otherwise. -/
def ofHighlighting (highlighting : Highlighting) (diagramTags : List String) : Registry where
  handlers := diagramTags.map fun tag => (tagKey tag, .diagram)
  fallback := .highlight highlighting

/-- The usual registry: diagrams under one tag. -/
def ofDiagramTag (diagramLanguage : String) : Registry :=
  ofHighlighting plainHighlighting [diagramLanguage]

/-- The handler registered for a language. The case of ASCII letters does not count. -/
def handler? (registry : Registry) (language : String) : Option Handler :=
  registry.handlers.lookup (tagKey language)

/-- Whether a language has a handler of its own. -/
def knows (registry : Registry) (language : String) : Bool := (registry.handler? language).isSome

/-- The tags with a handler of their own, in order and each once. -/
def tags (registry : Registry) : List String :=
  (registry.handlers.map Prod.fst).eraseDups.mergeSort fun a b => a ≤ b

/-- The markup of a block, and the diagrams after it. -/
def render (registry : Registry) (block : CodeBlock) (diagrams : PassDiagrams) :
    String × PassDiagrams :=
  let handler := (block.language?.bind registry.handler?).getD registry.fallback
  handler.render block diagrams

end Registry

end Galley.Code
