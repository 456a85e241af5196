import Galley.Proofs.Markdown.Blocks
import Galley.Proofs.Markdown.LinkParts

/-!
# Code, markup and definitions

Each reader of a block that holds no others takes its text from the start of what is left, and leaves the end
of it.

* `fencedCode_spec`, `indentedCode_spec`, `markup_spec` — code and markup;
* `linkDefinition?_spec` — definitions of links.
-/

namespace Galley.Markdown

open Galley.Source (Marking isPrivateUse isTokenChar Clear clear_cons clear_nil)

variable {m : Marking} {k : Nat} {cs rest : List Char}

/-! ## Code -/

theorem FenceOpening.suffix_endsAt? {fence : FenceOpening} (ended : fence.endsAt? cs = some rest) :
    rest <:+ cs := by
  unfold endsAt? at ended
  split at ended
  · obtain rfl := Option.some.inj ended
    exact List.suffix_refl _
  · simp only at ended
    split at ended
    · cases ended
    · split at ended
      · rw [← Option.some.inj ended]
        exact (List.dropWhile_suffix _).trans (List.dropWhile_suffix _)
      · cases ended

theorem suffix_getD_dropBlankLine? (cs : List Char) : (dropBlankLine? cs).getD cs <:+ cs := by
  cases ended : dropBlankLine? cs with
  | none => exact List.suffix_refl _
  | some rest => exact (skips_dropBlankLine? ended).suffix

theorem suffix_splitLine (cs : List Char) : (splitLine cs).2 <:+ cs :=
  ⟨(splitLine cs).1, (splitLine_spec cs).1⟩

theorem suffix_continued (containers : List Container) (cs : List Char) :
    (continued containers (.ofLine cs)).2.rest <:+ cs :=
  (skips_continued containers (.ofLine cs)).suffix

theorem occurrences_splitLine (cs : List Char) :
    m.occurrences k (splitLine cs).1 + m.occurrences k (splitLine cs).2 ≤ m.occurrences k cs := by
  conv => rhs; rw [← (splitLine_spec cs).1]
  exact m.occurrences_append_le _ _

/-- Code or markup that was read from the start of a text, and the text after it. -/
structure Verbatim (m : Marking) (cs code rest : List Char) : Prop where
  /-- It has whole tokens. -/
  whole : m.Tokened code
  /-- What is in it does not follow it. -/
  weight : ∀ k, m.occurrences k code + m.occurrences k rest ≤ m.occurrences k cs
  /-- The rest is the end of the text. -/
  suffix : rest <:+ cs

namespace Verbatim

theorem nil (suffix : rest <:+ cs) : Verbatim m cs [] rest :=
  ⟨trivial, fun _ => by simpa [Marking.occurrences] using occurrences_suffix suffix, suffix⟩

/-- A line is cut off, and something that follows it is left out. -/
theorem line (lead : Nat) (genuine : Genuine m cs) {next code : List Char}
    (after : next <:+ (splitLine cs).2) (read : Verbatim m next code rest) :
    Verbatim m cs (codeLine lead (splitLine cs).1 ++ code) rest where
  whole := (tokened_codeLine lead genuine.splitLine.tokened).append read.whole
  weight k := by
    have first := occurrences_codeLine (k := k) lead genuine.splitLine.tokened
    have cut := occurrences_splitLine (m := m) (k := k) cs
    have others := read.weight k
    have skipped := occurrences_suffix (m := m) (k := k) after
    rw [Marking.occurrences_append (tokened_codeLine lead genuine.splitLine.tokened)]
    omega
  suffix := (read.suffix.trans after).trans (suffix_splitLine cs)

/-- A line is cut off, and nothing follows it. -/
theorem lastLine (lead : Nat) (genuine : Genuine m cs) :
    Verbatim m cs (codeLine lead (splitLine cs).1) (splitLine cs).2 := by
  have last := line lead genuine (List.suffix_refl _) (nil (List.suffix_refl _))
  rw [List.append_nil] at last
  exact last

theorem of_suffix {cs' code : List Char} (read : Verbatim m cs' code rest) (suffix : cs' <:+ cs) :
    Verbatim m cs code rest where
  whole := read.whole
  weight k := Nat.le_trans (read.weight k) (occurrences_suffix suffix)
  suffix := read.suffix.trans suffix

end Verbatim

theorem fencedCode_spec (containers : List Container) (fence : FenceOpening) (indent fuel : Nat)
    (genuine : Genuine m cs) :
    Verbatim m cs (fencedCode containers fence indent fuel cs).1
      (fencedCode containers fence indent fuel cs).2 := by
  induction fuel generalizing cs with
  | zero => exact .nil (List.suffix_refl _)
  | succ fuel ih =>
    unfold fencedCode
    simp only
    have line := suffix_continued containers cs
    generalize continued containers (.ofLine cs) = margins at *
    split
    · exact .nil (List.suffix_refl _)
    · have body := (margins.2.skips_indent indent).suffix.trans line
      have inner := ((margins.2.indent indent).2.skips_indent (4 - indent)).suffix.trans body
      split
      next after found =>
        split at found
        · cases found
        · exact .nil ((suffix_getD_dropBlankLine? after).trans
            ((FenceOpening.suffix_endsAt? found).trans inner))
      next =>
        have next := (suffix_splitLine (margins.2.indent indent).2.rest).trans body
        exact (Verbatim.line _ (genuine.suffix body) (List.suffix_refl _) (ih (genuine.suffix next))).of_suffix
          body

theorem indentedCode_spec (containers : List Container) (fuel : Nat) (margin : Margin)
    (genuine : Genuine m margin.rest) :
    Verbatim m margin.rest (indentedCode containers fuel margin).1
      (indentedCode containers fuel margin).2.2 := by
  induction fuel generalizing margin with
  | zero => exact .nil (List.suffix_refl _)
  | succ fuel ih =>
    unfold indentedCode
    simp only
    have next := suffix_splitLine margin.rest
    have inner := ((continued containers (.ofLine (splitLine margin.rest).2)).2.skips_indent 4).suffix.trans
      (suffix_continued containers _)
    split
    · split
      · exact .nil next
      · exact .lastLine margin.pending genuine
    · have more := ih _ (genuine.suffix (inner.trans next))
      split
      · exact .nil (more.suffix.trans (inner.trans next))
      · exact .line margin.pending genuine inner more

/-! ## Markup -/

theorem markup_spec (containers : List Container) (stop : Option String) (fuel lead : Nat)
    (genuine : Genuine m cs) :
    Verbatim m cs (markup containers stop fuel lead cs).1 (markup containers stop fuel lead cs).2 := by
  induction fuel generalizing lead cs with
  | zero => exact .nil (List.suffix_refl _)
  | succ fuel ih =>
    have inner := suffix_continued containers (splitLine cs).2
    -- Whether the block ends here does not matter, only what is taken in either case.
    obtain ⟨ends, step⟩ : ∃ ends : Bool, markup containers stop (fuel + 1) lead cs =
        if ends then (codeLine lead (splitLine cs).1, (splitLine cs).2)
        else
          let margin := (continued containers (.ofLine (splitLine cs).2)).2
          (codeLine lead (splitLine cs).1 ++ (markup containers stop fuel margin.pending margin.rest).1,
            (markup containers stop fuel margin.pending margin.rest).2) := ⟨_, rfl⟩
    rw [step]
    split
    · exact .lastLine lead genuine
    · exact .line lead genuine inner (ih _ (genuine.suffix (inner.trans (suffix_splitLine cs))))

/-! ## Definitions of links -/

theorem continues_definitionLine? (containers : List Container) :
    Continues (definitionLine? containers) := fun cs next goesOn => by
  unfold definitionLine? at goesOn
  simp only at goesOn
  split at goesOn
  · cases goesOn
  · rw [← Option.some.inj goesOn]
    exact suffix_continued containers cs

theorem suffix_definitionSpace? {containers : List Container} {broken : Bool}
    (read : definitionSpace? containers cs = some (rest, broken)) : rest <:+ cs := by
  unfold definitionSpace? at read
  simp only at read
  split at read
  next =>
    rw [← (Prod.mk.inj (Option.some.inj read)).1]
    exact List.dropWhile_suffix _
  next next ended =>
    obtain ⟨line, goesOn, read⟩ := Option.bind_eq_some_iff.mp read
    split at read
    · cases read
    · rw [← (Prod.mk.inj (Option.some.inj read)).1]
      exact (((List.dropWhile_suffix _).trans (continues_definitionLine? containers _ _ goesOn)).trans
        (skips_dropLineBreak? ended).suffix).trans (List.dropWhile_suffix _)

theorem isSolid_of_isBreak {c : Char} (breaking : isBreak c = true) : isSolid c = false := by
  simp only [isBreak, Bool.or_eq_true, beq_iff_eq] at breaking
  rcases breaking with rfl | rfl <;> decide

/-- The title of a definition is genuine if its text is: what it leaves out stands in no token and in no
    reference. -/
theorem definitionTitle?_spec {containers : List Container} {opening closing : Char} {fuel : Nat}
    {escaped : Bool} {title : List Char} (genuine : Genuine m cs) (other : isSolid closing = false)
    (read : definitionTitle? containers opening closing fuel escaped cs = some (title, rest)) :
    Genuine m title ∧ Mirrors title cs ∧ rest <:+ cs := by
  induction fuel generalizing escaped cs title with
  | zero => cases read
  | succ fuel ih =>
    cases cs with
    | nil => cases read
    | cons c cs =>
      have taken : ∀ {next : Bool},
          (definitionTitle? containers opening closing fuel next cs).map
            (fun pair => (c :: pair.1, pair.2)) = some (title, rest) →
          Genuine m title ∧ Mirrors title (c :: cs) ∧ rest <:+ c :: cs := fun made => by
        obtain ⟨⟨inner, tail⟩, found, same⟩ := Option.map_eq_some_iff.mp made
        obtain ⟨rfl, rfl⟩ := Prod.mk.inj same
        obtain ⟨whole, mirrors, suffix⟩ := ih ⟨genuine.tokened.2, genuine.unforged.2⟩ found
        exact ⟨genuine.cons_of_mirrors whole mirrors, mirrors.cons, suffix.trans (List.suffix_cons _ _)⟩
      unfold definitionTitle? at read
      simp only at read
      split at read
      next breaking =>
        obtain ⟨next, ended, read⟩ := Option.bind_eq_some_iff.mp read
        obtain ⟨line, goesOn, read⟩ := Option.bind_eq_some_iff.mp read
        split at read
        · cases read
        · obtain ⟨⟨inner, tail⟩, found, same⟩ := Option.map_eq_some_iff.mp read
          obtain ⟨rfl, rfl⟩ := Prod.mk.inj same
          have after : line.dropWhile isSpace <:+ c :: cs :=
            ((List.dropWhile_suffix _).trans (continues_definitionLine? containers _ _ goesOn)).trans
              (skips_dropLineBreak? ended).suffix
          obtain ⟨whole, -, suffix⟩ := ih (genuine.suffix after) found
          refine ⟨⟨whole.tokened.cons (Marking.opening_ne (by decide)), ⟨fun same => ?_, whole.unforged⟩⟩,
            Mirrors.of_stops (fun d same => ?_) (fun d same => ?_), suffix.trans after⟩
          · exact absurd same (by decide)
          · rw [← Option.some.inj same]
            decide
          · rw [← Option.some.inj same]
            exact isSolid_of_isBreak breaking
      split at read
      next => exact taken read
      split at read
      next closes =>
        obtain ⟨rfl, rfl⟩ := Prod.mk.inj (Option.some.inj read)
        rw [beq_iff_eq.mp closes]
        refine ⟨genuine_nil, Mirrors.of_stops (fun _ absent => by cases absent) fun d same => ?_,
          List.suffix_cons _ _⟩
        rw [← Option.some.inj same]
        exact other
      split at read
      · cases read
      · exact taken read

/-- The target of a link without sentinels that a reference made. -/
def LinkTarget.Whole (m : Marking) (target : LinkTarget) : Prop :=
  m.Tokened target.destination.toList ∧ m.Tokened target.title.toList

theorem tokened_unescape (genuine : Genuine m cs) : m.Tokened (String.ofList (unescape cs)).toList := by
  rw [String.toList_ofList]
  exact (derived_unescape genuine.unforged).tokened genuine.tokened

theorem isSolid_of_titleEnd? {c closing : Char} (ends : titleEnd? c = some closing) :
    isSolid closing = false := by
  unfold titleEnd? at ends
  split at ends
  case h_4 => cases ends
  all_goals
    rw [← Option.some.inj ends]
    decide

/-- The definition of a link takes its text from the start of what is left. -/
theorem linkDefinition?_spec {containers : List Container} {label : List Char} {target : LinkTarget}
    (genuine : Genuine m cs) (read : linkDefinition? containers cs = some (label, target, rest)) :
    target.Whole m ∧ rest <:+ cs := by
  unfold linkDefinition? at read
  split at read
  next body =>
    simp only [Option.bind_eq_bind, Option.bind_eq_some_iff] at read
    obtain ⟨⟨text, afterLabel⟩, labelled, afterColon, colon, ⟨start, broken⟩, spaced,
      ⟨destination, after⟩, found, read⟩ := read
    obtain ⟨-, -, used, split⟩ := label?_spec (continues_definitionLine? containers) genuine.tokened.2 labelled
    have tail := append_of_isPrefixOf? colon
    simp only at tail read
    subst tail
    have toStart : start <:+ '[' :: body := by
      rw [split]
      exact (((suffix_definitionSpace? spaced).trans (List.suffix_append _ _)).trans
        ((List.suffix_cons ']' _).trans (List.suffix_append used _))).trans (List.suffix_cons '[' _)
    obtain ⟨whole, toAfter⟩ := (genuine.suffix toStart).destination? found
    have toAfter := toAfter.trans toStart
    have titled : ∀ {title tail : List Char}, Genuine m title → tail <:+ '[' :: body →
        some (text, LinkTarget.mk (.ofList (unescape destination)) (.ofList (unescape title)), tail) =
          some (label, target, rest) → target.Whole m ∧ rest <:+ '[' :: body := fun title suffix same => by
      obtain ⟨-, same⟩ := Prod.mk.inj (Option.some.inj same)
      obtain ⟨rfl, rfl⟩ := Prod.mk.inj same
      exact ⟨⟨tokened_unescape whole, tokened_unescape title⟩, suffix⟩
    split at read
    next => cases read
    split at read
    next => exact titled genuine_nil toAfter read
    next next ends further =>
      have toTitle := (suffix_definitionSpace? further).trans toAfter
      have untitled : (if ends then some (text, LinkTarget.mk (.ofList (unescape destination))
          (.ofList (unescape [])), after) else none) = some (label, target, rest) →
          target.Whole m ∧ rest <:+ '[' :: body := fun same => by
        split at same
        · exact titled genuine_nil toAfter same
        · cases same
      split at read
      next => cases read
      split at read
      next title tail made =>
        split at made
        next =>
          obtain ⟨closing, quoted, made⟩ := Option.bind_eq_some_iff.mp made
          have inside := genuine.suffix toTitle
          obtain ⟨whole', -, suffix⟩ := definitionTitle?_spec ⟨inside.tokened.2, inside.unforged.2⟩
            (isSolid_of_titleEnd? quoted) made
          split at read
          · exact titled whole' ((suffix.trans (List.suffix_cons _ _)).trans toTitle) read
          · exact untitled read
        next => cases made
      next => exact untitled read
  next => cases read

end Galley.Markdown
