import Galley.Proofs.Code.Rendering

/-!
# The code that markup spells

A highlighting puts tags between the characters of code and escapes some of them, and code that is not highlighted is
escaped as a whole. In both cases the code can be read off its markup.

* `Spells` — markup that spells a text, and `Spells.split`, markup that spells two texts in a row;
* `Registry.SpellsCode` — every highlighting of a registry spells its code;
* `Registry.spells_render` — then the markup of every block does;
* `spellsCode_ofDiagramTag` — the usual registry is one of them.
-/

namespace Galley.Code

variable {text text' markup markup' : List Char}

/-- Markup that spells a text: the characters of the text in their order, each as it is written between tags or in
    code, with tags in front of them, between them and behind them. -/
inductive Spells : (text markup : List Char) → Prop where
  | nil : Spells [] []
  | char {c : Char} {written text markup : List Char}
      (escaped : written = Text.escapeTextChar c ∨ written = escapeCodeChar c) (more : Spells text markup) :
      Spells (c :: text) (written ++ markup)
  | tag {inside text markup : List Char} (closed : '>' ∉ inside) (more : Spells text markup) :
      Spells text ('<' :: (inside ++ '>' :: markup))

namespace Spells

theorem append (first : Spells text markup) (second : Spells text' markup') :
    Spells (text ++ text') (markup ++ markup') := by
  induction first with
  | nil => exact second
  | char escaped _ ih =>
    rw [List.append_assoc]
    exact .char escaped ih
  | @tag inside text markup closed _ ih =>
    have whole := Spells.tag closed ih
    simpa using whole

theorem ofTag {inside : List Char} (closed : '>' ∉ inside) : Spells [] ('<' :: (inside ++ ['>'])) := .tag closed .nil

/-- Characters that are escaped one by one spell their text. -/
theorem ofFlatMap {escape : Char → List Char} (escapes : ∀ c, escape c = Text.escapeTextChar c ∨ escape c = escapeCodeChar c)
    (text : List Char) : Spells text (text.flatMap escape) := by
  induction text with
  | nil => exact .nil
  | cons c rest ih =>
    rw [List.flatMap_cons]
    exact .char (escapes c) ih

/-- Markup that spells two texts in a row spells first the one and then the other. -/
theorem split (spells : Spells (text ++ text') markup) :
    ∃ first second, markup = first ++ second ∧ Spells text first ∧ Spells text' second := by
  -- Tags between the two texts belong to the first: the markup is cut in front of the second one's first character.
  generalize same : text ++ text' = whole at spells
  induction spells generalizing text with
  | nil =>
    obtain ⟨rfl, rfl⟩ := List.append_eq_nil_iff.mp same
    exact ⟨[], [], rfl, .nil, .nil⟩
  | @char c written rest markup escaped more ih =>
    cases text with
    | nil =>
      rw [List.nil_append] at same
      rw [same]
      exact ⟨[], written ++ markup, rfl, .nil, .char escaped more⟩
    | cons d text =>
      obtain ⟨rfl, rest'⟩ := List.cons.inj same
      obtain ⟨first, second, rfl, left, right⟩ := ih rest'
      exact ⟨written ++ first, second, (List.append_assoc _ _ _).symm, .char escaped left, right⟩
  | @tag inside rest markup closed more ih =>
    obtain ⟨first, second, rfl, left, right⟩ := ih same
    exact ⟨'<' :: (inside ++ '>' :: first), second, by simp, .tag closed left, right⟩

end Spells

theorem spells_escapeText (code : String) : Spells code.toList (Text.escapeText code).toList := by
  rw [Text.escapeText, String.toList_ofList]
  exact .ofFlatMap (fun _ => Or.inl rfl) _

/-- Whether every highlighting of a registry only puts tags into code and escapes it. -/
def Registry.SpellsCode (registry : Registry) : Prop :=
  ∀ highlighting, .highlight highlighting ∈ registry.fallback :: registry.handlers.map Prod.snd →
    ∀ code language markup, highlighting.highlight code language = .ok markup → Spells code.toList markup.toList

/-- The markup of highlighted code spells the code between the tags around it. -/
theorem spells_highlightMarkup {highlighting : Highlighting} {block : CodeBlock}
    (spells : ∀ code language markup, highlighting.highlight code language = .ok markup →
      Spells code.toList markup.toList) :
    ∃ before body after, highlightMarkup highlighting block = before ++ body ++ after ∧
      Spells block.code.toList body.toList := by
  unfold highlightMarkup
  split
  next => exact ⟨_, _, _, rfl, spells_escapeText _⟩
  next language _ =>
    refine ⟨_, _, _, rfl, ?_⟩
    split
    next =>
      split
      next markup made => exact spells _ _ _ made
      next => exact spells_escapeText _
    next => exact spells_escapeText _

/-- The markup of every block spells its code. -/
theorem Registry.spells_render {registry : Registry} (spells : registry.SpellsCode) (block : CodeBlock)
    (diagrams : PassDiagrams) :
    ∃ before body after, (registry.render block diagrams).1 = before ++ body ++ after ∧
      Spells block.code.toList body.toList := by
  unfold Registry.render
  simp only
  cases chosen : (block.language?.bind registry.handler?).getD registry.fallback with
  | highlight highlighting => exact spells_highlightMarkup (spells highlighting (mem_of_chosen chosen))
  | diagram => exact ⟨_, _, _, rfl, spells_escapeText _⟩

theorem spells_plainMarkup (code : String) : Spells code.toList (plainMarkup code).toList := by
  unfold plainMarkup
  split
  next empty =>
    rw [String.isEmpty_iff.mp empty]
    exact .nil
  next =>
    have opens : Spells [] "<span class=\"hl-text hl-plain\">".toList :=
      @Spells.ofTag "span class=\"hl-text hl-plain\"".toList (by decide)
    have closes : Spells [] "</span>".toList := @Spells.ofTag "/span".toList (by decide)
    have content : Spells code.toList (code.toList.flatMap escapeCodeChar) := .ofFlatMap (fun _ => Or.inr rfl) _
    have whole := (opens.append content).append closes
    rw [List.nil_append, List.append_nil] at whole
    simpa using whole

/-- The usual registry marks code as plain text, and so spells it. -/
theorem spellsCode_ofDiagramTag (tag : String) : (Registry.ofDiagramTag tag).SpellsCode := by
  intro highlighting member code language markup made
  obtain rfl := eq_plainHighlighting member
  rw [plainHighlighting_ok made]
  exact spells_plainMarkup code

end Galley.Code
