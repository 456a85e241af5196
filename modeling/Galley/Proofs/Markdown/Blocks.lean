import Galley.Proofs.Markdown.Line

/-!
# Blocks of marked texts

What is known of the blocks of a document whose tokens are whole, and how many tokens stand in them.

* `ContentLine.Fit`, `Content.Fit`, `Block.Fit` — the texts of a block have whole tokens;
* `Content.weight`, `Block.weight` — how often a token stands in a block;
* `Block.Read` — a block that was read from the start of a text, and the text after it.
-/

namespace Galley.Markdown

open Galley.Source (Marking)

/-- A line of a block whose text is genuine and whose margins hold no text. -/
structure ContentLine.Fit (m : Marking) (line : ContentLine) : Prop where
  /-- The text has whole tokens. -/
  text : Genuine m line.text
  /-- Containers take only characters of margins. -/
  skipped : ∀ c ∈ line.skipped, isMarginChar c = true
  /-- The indentation has only characters of margins. -/
  indentation : ∀ c ∈ line.indentation, isMarginChar c = true
  /-- The end of the line has only line breaks. -/
  lineBreak : ∀ c ∈ line.lineBreak, isBreak c = true

/-- The text of a block with genuine lines, which are told apart by their ends. -/
structure Content.Fit (m : Marking) (content : Content) : Prop where
  /-- All lines are fit. -/
  lines : ∀ line ∈ content.lines, line.Fit m
  /-- Every line but the last one has an end. -/
  broken : ∀ line ∈ content.lines.dropLast, line.lineBreak ≠ []

/-- How often a token stands in the lines of a block. -/
def Content.weight (m : Marking) (k : Nat) (content : Content) : Nat :=
  (content.lines.map fun line => m.occurrences k line.text).sum

mutual

/-- All texts of a block have whole tokens. -/
def Block.Fit (m : Marking) : Block → Prop
  | .paragraph content => content.Fit m
  | .heading _ content => content.Fit m
  | .code info body => (∀ text ∈ info, m.Tokened text) ∧ m.Tokened body
  | .html markup => m.Tokened markup
  | .rule => True
  | .table _ head rows =>
    (∀ cell ∈ head, cell.Fit m) ∧ ∀ row ∈ rows, ∀ cell ∈ row, Content.Fit m cell
  | .task _ => True
  | .container _ blocks => Block.FitAll m blocks

/-- All texts of some blocks have whole tokens. -/
def Block.FitAll (m : Marking) : List Block → Prop
  | [] => True
  | block :: rest => block.Fit m ∧ Block.FitAll m rest

end

mutual

/-- How often a token stands in a block. -/
def Block.weight (m : Marking) (k : Nat) : Block → Nat
  | .paragraph content => content.weight m k
  | .heading _ content => content.weight m k
  | .code info body => info.elim 0 (m.occurrences k) + m.occurrences k body
  | .html markup => m.occurrences k markup
  | .rule => 0
  | .table _ head rows =>
    (head.map (Content.weight m k)).sum + (rows.map fun row => (row.map (Content.weight m k)).sum).sum
  | .task _ => 0
  | .container _ blocks => Block.weightAll m k blocks

/-- How often a token stands in some blocks. -/
def Block.weightAll (m : Marking) (k : Nat) : List Block → Nat
  | [] => 0
  | block :: rest => block.weight m k + Block.weightAll m k rest

end

/-- A block was read from the start of a text, and `rest` follows it. -/
structure Block.Read (m : Marking) (cs : List Char) (block : Block) (rest : List Char) : Prop where
  /-- The block has whole tokens. -/
  fit : block.Fit m
  /-- What is in the block does not follow it. -/
  weight : ∀ k, block.weight m k + m.occurrences k rest ≤ m.occurrences k cs
  /-- The rest is the end of the text. -/
  suffix : rest <:+ cs

variable {m : Marking} {k : Nat} {cs rest : List Char}

theorem Block.Read.of_suffix {block : Block} {cs' : List Char} (read : Block.Read m cs' block rest)
    (suffix : cs' <:+ cs) : Block.Read m cs block rest where
  fit := read.fit
  weight k := Nat.le_trans (read.weight k) (occurrences_suffix suffix)
  suffix := read.suffix.trans suffix

theorem Block.fitAll_append {as bs : List Block} :
    Block.FitAll m (as ++ bs) ↔ Block.FitAll m as ∧ Block.FitAll m bs := by
  induction as with
  | nil => simp [Block.FitAll]
  | cons block rest ih => simp [Block.FitAll, ih, and_assoc]

theorem Block.fitAll_reverse {blocks : List Block} :
    Block.FitAll m blocks.reverse ↔ Block.FitAll m blocks := by
  induction blocks with
  | nil => rfl
  | cons block rest ih => simp [Block.fitAll_append, Block.FitAll, ih, and_comm]

theorem Block.weightAll_append (as bs : List Block) :
    Block.weightAll m k (as ++ bs) = Block.weightAll m k as + Block.weightAll m k bs := by
  induction as with
  | nil => simp [Block.weightAll]
  | cons block rest ih => simp [Block.weightAll, ih, Nat.add_assoc]

theorem Block.weightAll_reverse (blocks : List Block) :
    Block.weightAll m k blocks.reverse = Block.weightAll m k blocks := by
  induction blocks with
  | nil => rfl
  | cons block rest ih => simp [Block.weightAll_append, Block.weightAll, ih, Nat.add_comm]

theorem Content.fit_ofText {before : Char} {inCell : Bool} (genuine : Genuine m cs) :
    Content.Fit m (.ofText before inCell cs) where
  lines line member := by
    obtain rfl := List.mem_singleton.mp member
    exact ⟨genuine, fun _ absent => absurd absent List.not_mem_nil,
      fun _ absent => absurd absent List.not_mem_nil, fun _ absent => absurd absent List.not_mem_nil⟩
  broken line member := by simp [Content.ofText] at member

theorem Content.weight_ofText (before : Char) (inCell : Bool) (cs : List Char) :
    Content.weight m k (.ofText before inCell cs) = m.occurrences k cs := by
  simp [Content.weight, Content.ofText]

end Galley.Markdown
