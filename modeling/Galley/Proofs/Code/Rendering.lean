import Galley.Code.Registry
import Galley.Proofs.Markdown.Silent

/-!
# Tokens in the markup of code

The code of a block is written without tokens. The language of the block stands in the markup too, and it is
written as it is found.

* `Highlighting.Keeps`, `Registry.Keeps` — markup of code has no characters for private use of its own;
* `language?_spec` — the language of a block is a part of its info text;
* `Registry.render_spec` — the tokens in the markup of a block are those of its info text.
-/

namespace Galley

open Galley.Source (Marking Silent Bears Escapes isPrivateUse isTokenChar silent_of_plain silent_empty
  silent_toString silent_escapeText silent_escapeAttribute bears_escapeAttribute
  escapes_escapeAttributeChar)

variable {m : Marking} {k : Nat} {cs : List Char}

namespace Text

theorem isTokenChar_of_isBlank {c : Char} (blank : isBlank c = true) : isTokenChar c = false := by
  simp only [isBlank, Bool.or_eq_true, Bool.and_eq_true, decide_eq_true_eq, beq_iff_eq] at blank
  exact Source.isTokenChar_of_toNat (by omega) (by omega)

theorem head?_wordsGo (cs word : List Char) (started : word ≠ []) :
    (words.go cs word).head? = some (word.reverse ++ cs.takeWhile fun c => !isBlank c) := by
  induction cs generalizing word with
  | nil => simp [words.go, started]
  | cons c rest ih =>
    unfold words.go
    cases blank : isBlank c with
    | true => simp [started, blank]
    | false => simp [ih (c :: word) (by simp), blank]

/-- The first word of a text is what stands between its first blanks and the next ones. -/
theorem head?_words {word : List Char} (first : (words cs).head? = some word) :
    word = (cs.dropWhile isBlank).takeWhile fun c => !isBlank c := by
  unfold words at first
  induction cs with
  | nil => cases first
  | cons c rest ih =>
    unfold words.go at first
    cases blank : isBlank c with
    | true =>
      rw [List.dropWhile_cons_of_pos blank]
      exact ih (by simpa [blank] using first)
    | false =>
      rw [List.dropWhile_cons_of_neg (by simp [blank]), List.takeWhile_cons_of_pos (by simp [blank])]
      simp only [blank, Bool.false_eq_true, if_false, head?_wordsGo rest [c] (by simp)] at first
      exact (Option.some.inj first).symm

end Text

namespace Code

/-- Highlighting that writes no sentinel unless the code holds it. -/
def Highlighting.Keeps (highlighting : Highlighting) : Prop :=
  ∀ (m : Marking) code language markup, highlighting.highlight code language = .ok markup →
    Silent m code → Silent m markup

/-- All highlighting of a registry writes no sentinel unless the code holds it. -/
def Registry.Keeps (registry : Registry) : Prop :=
  ∀ highlighting, .highlight highlighting ∈ registry.fallback :: registry.handlers.map Prod.snd →
    highlighting.Keeps

/-- The language of a block has the tokens of the info text. -/
theorem bears_language {n : Nat → Nat} {block : CodeBlock} {language : String}
    (info : Bears m n block.info) (found : block.language? = some language) : Bears m n language := by
  obtain ⟨word, first, rfl⟩ := Option.map_eq_some_iff.mp found
  obtain rfl := Text.head?_words first
  obtain ⟨whole, most⟩ := info
  obtain ⟨blanks, split⟩ := List.dropWhile_suffix (l := block.info.toList) Text.isBlank
  generalize block.info.toList.dropWhile Text.isBlank = rest at split
  rw [← split] at whole most
  refine ⟨?_, fun k => Nat.le_trans ?_ (most k)⟩
  · rw [String.toList_ofList]
    exact whole.right.takeWhile fun c blank => Text.isTokenChar_of_isBlank (by simpa using blank)
  · rw [String.toList_ofList]
    exact Nat.le_trans (Marking.occurrences_takeWhile_le _ rest) (Marking.occurrences_right_le blanks rest)

/-! ## Markup -/

theorem escapes_escapeCodeChar : Escapes m escapeCodeChar where
  plain c inToken := by
    unfold escapeCodeChar
    rw [if_neg, escapes_escapeAttributeChar.plain (m := m) c inToken]
    rintro rfl
    exact absurd inToken (by decide)
  fresh c other := by
    unfold escapeCodeChar
    split
    · exact silent_of_plain (a := "&#39;") (by decide)
    · exact escapes_escapeAttributeChar.fresh c other

theorem silent_plainMarkup {code : String} (silent : Silent m code) : Silent m (plainMarkup code) := by
  unfold plainMarkup
  split
  · exact silent_empty
  · refine ((silent_of_plain (by decide)).append ?_).append (silent_of_plain (by decide))
    rw [Silent, String.toList_ofList]
    exact escapes_escapeCodeChar.silent silent

/-- The usual registry marks code as plain text. -/
theorem eq_plainHighlighting {tag : String} {highlighting : Highlighting}
    (member : .highlight highlighting ∈ (Registry.ofDiagramTag tag).fallback ::
      (Registry.ofDiagramTag tag).handlers.map Prod.snd) : highlighting = plainHighlighting := by
  simpa [Registry.ofDiagramTag, Registry.ofHighlighting] using member

/-- Code that is highlighted becomes plain text. -/
theorem plainHighlighting_ok {code language markup : String}
    (made : plainHighlighting.highlight code language = .ok markup) : markup = plainMarkup code := by
  simp only [plainHighlighting] at made
  split at made
  · exact (Except.ok.inj made).symm
  · cases made

/-- The usual registry writes no sentinel of its own. -/
theorem keeps_ofDiagramTag (tag : String) : (Registry.ofDiagramTag tag).Keeps := by
  intro highlighting member m code language markup made silent
  obtain rfl := eq_plainHighlighting member
  rw [plainHighlighting_ok made]
  exact silent_plainMarkup silent

theorem opening_not_mem_hexDigits (number width : Nat) : m.opening ∉ Text.hexDigits number width := by
  induction width generalizing number with
  | zero => exact List.not_mem_nil
  | succ width ih =>
    unfold Text.hexDigits
    rw [List.mem_append, not_or, List.mem_singleton]
    have digits : ∀ d < 16, isPrivateUse (Nat.digitChar d) = false := by decide
    refine ⟨ih _, fun same => ?_⟩
    have digit := digits (number % 16) (Nat.mod_lt _ (by decide))
    rw [← same, m.openingPrivate] at digit
    cases digit

/-- The id of a diagram is written in letters and digits. -/
theorem silent_id (namer : Diagram.Namer) : Silent m namer.next.1 := by
  refine Silent.append (silent_of_plain (by decide)) ?_
  split
  · exact silent_toString _
  · rw [Silent, String.toList_ofList, Diagram.randomId]
    have version : m.opening ∉ ['4'] := silent_of_plain (a := "4") (by decide)
    rw [List.mem_singleton] at version
    simp [opening_not_mem_hexDigits, version]

/-- The markup of code holds the tokens of the language only. -/
theorem bears_highlightMarkup {n : Nat → Nat} {highlighting : Highlighting} {block : CodeBlock}
    (keeps : highlighting.Keeps) (info : Bears m n block.info) (code : Silent m block.code) :
    Bears m n (highlightMarkup highlighting block) := by
  unfold highlightMarkup
  split
  next =>
    exact .of_silent (((silent_of_plain (by decide)).append (silent_escapeText code)).append
      (silent_of_plain (by decide)))
  next language found =>
    refine ((((silent_of_plain (by decide)).appendBears
      (bears_escapeAttribute (bears_language info found))).appendSilent
      (silent_of_plain (by decide))).appendSilent ?_).appendSilent (silent_of_plain (by decide))
    split
    · split
      next made => exact keeps _ _ _ _ made code
      next => exact silent_escapeText code
    · exact silent_escapeText code

theorem silent_diagramMarkup {id code : String} (idSilent : Silent m id) (silent : Silent m code) :
    Silent m (diagramMarkup id code) :=
  ((((silent_of_plain (by decide)).append (silent_escapeAttribute idSilent)).append
    (silent_of_plain (by decide))).append (silent_escapeText silent)).append (silent_of_plain (by decide))

/-- The handler of a block is one of the registry. -/
theorem Registry.mem_of_chosen {registry : Registry} {language : Option String} {highlighting : Highlighting}
    (chosen : (language.bind registry.handler?).getD registry.fallback = .highlight highlighting) :
    .highlight highlighting ∈ registry.fallback :: registry.handlers.map Prod.snd := by
  cases given : language.bind registry.handler? with
  | none =>
    rw [given] at chosen
    exact chosen ▸ List.mem_cons_self
  | some handler =>
    rw [given, Option.getD_some] at chosen
    obtain ⟨name, -, found⟩ := Option.bind_eq_some_iff.mp given
    rw [chosen] at found
    obtain ⟨before, after, same, -⟩ := List.lookup_eq_some_iff.mp found
    rw [same]
    simp

/-- The markup of a block whose code holds no token has those of its info text at most. -/
theorem Registry.bears_render {n : Nat → Nat} {registry : Registry} (keeps : registry.Keeps)
    (block : CodeBlock) (info : Bears m n block.info) (code : Silent m block.code)
    (diagrams : PassDiagrams) : Bears m n (registry.render block diagrams).1 := by
  unfold Registry.render
  simp only
  cases chosen : (block.language?.bind registry.handler?).getD registry.fallback with
  | highlight highlighting =>
    exact bears_highlightMarkup (keeps highlighting (mem_of_chosen chosen)) info code
  | diagram => exact .of_silent (silent_diagramMarkup (silent_id _) code)

end Code
end Galley
