import Galley.Proofs.Html.Tokens
import Galley.Proofs.Markdown.Spots
import Galley.Proofs.Source.Filling

/-!
# Filled markup

Tokens that stand in text give way to markup that leads from text to text, so filling keeps to a vocabulary. A token can
also take the place of a paragraph that holds nothing else.

* `Stage.part`, `part_after` — a stage tells what a place is a part of;
* `after?_before_paragraph` — a paragraph begins in text;
* `reads_fill` — filled markup.
-/

namespace Galley.Html

open Galley.Source (Extraction Fragment Standing)
open Galley.Source.Extraction (fillTrace placing)

variable {v : Vocabulary} {stage next start stop : Stage} {c : Char} {cs : List Char} {spot : Spot}

namespace Stage

/-- What a place is a part of. -/
def part : Stage → Part
  | text => .text
  | bracket => .bracket
  | solidus => .solidus
  | name isClosing reversed => .name isClosing reversed
  | inside _ => .attributes
  | key _ _ => .key
  | equals _ _ => .equals
  | value _ => .value '\x22'
  | counted _ _ _ => .value '\x22'

theorem isNameChar_spec (isChar : isNameChar c = true) : c ≠ '>' ∧ Spot.endsName c = false ∧ c.toLower = c := by
  refine ⟨?_, ?_, ?_⟩
  · rintro rfl
    exact absurd isChar (by decide)
  · rw [← Bool.not_eq_true]
    intro ends
    simp only [Spot.endsName, isSpace, Bool.or_eq_true, beq_iff_eq, or_assoc] at ends
    rcases ends with rfl | rfl | rfl | rfl | rfl | rfl | rfl <;> exact absurd isChar (by decide)
  · rw [isNameChar, Bool.or_eq_true] at isChar
    rcases isChar with lower | digit
    · exact toLower_of_not_isUpper (not_isUpper_of_isLower lower)
    · exact toLower_of_not_isUpper (not_isUpper_of_isDigit digit)

/-- Stages and parts go on alike. -/
theorem part_next? (goesOn : stage.next? v c = some next) : Spot.nextPart stage.part c = next.part := by
  have letter : c.isLower = true → c.isAlpha = true ∧ c ≠ '>' ∧ Spot.endsName c = false ∧ c.toLower = c := by
    intro lower
    exact ⟨isAlpha_of_isLower lower, isNameChar_spec (by rw [isNameChar, lower, Bool.true_or])⟩
  unfold next? at goesOn
  cases stage with
  | text =>
    obtain rfl := Option.some.inj goesOn
    simp only [part, Spot.nextPart]
    split <;> rfl
  | bracket =>
    simp only at goesOn
    split at goesOn
    next solidus =>
      obtain rfl := Option.some.inj goesOn
      subst solidus
      rfl
    next =>
      split at goesOn
      next lower =>
        obtain rfl := Option.some.inj goesOn
        simp [part, Spot.nextPart, letter lower]
      next => cases goesOn
  | solidus =>
    simp only at goesOn
    split at goesOn
    next lower =>
      obtain rfl := Option.some.inj goesOn
      simp [part, Spot.nextPart, letter lower]
    next => cases goesOn
  | name isClosing reversed =>
    simp only at goesOn
    split at goesOn
    next isChar =>
      obtain rfl := Option.some.inj goesOn
      simp [part, Spot.nextPart, isNameChar_spec isChar]
    next =>
      split at goesOn
      next =>
        split at goesOn
        next bracket =>
          obtain rfl := Option.some.inj goesOn
          simp [part, Spot.nextPart, bracket]
        next => cases goesOn
      next =>
        split at goesOn
        next =>
          split at goesOn
          next bracket =>
            obtain rfl := Option.some.inj goesOn
            simp [part, Spot.nextPart, bracket]
          next =>
            split at goesOn
            next blank =>
              obtain rfl := Option.some.inj goesOn
              subst blank
              rfl
            next => cases goesOn
        next => cases goesOn
  | inside tag =>
    simp only at goesOn
    split at goesOn
    next bracket =>
      obtain rfl := Option.some.inj goesOn
      simp [part, Spot.nextPart, bracket]
    next =>
      split at goesOn
      next skipped =>
        obtain rfl := Option.some.inj goesOn
        rcases skipped with rfl | rfl <;> rfl
      next =>
        split at goesOn
        next lower =>
          obtain rfl := Option.some.inj goesOn
          simp [part, Spot.nextPart, letter lower]
        next => cases goesOn
  | key tag reversed =>
    simp only at goesOn
    split at goesOn
    next goesOnName =>
      obtain rfl := Option.some.inj goesOn
      have other : c ≠ '>' ∧ c ≠ '=' ∧ c ≠ '/' := by
        rcases goesOnName with lower | rfl
        · refine ⟨?_, ?_, ?_⟩ <;> rintro rfl <;> exact absurd lower (by decide)
        · decide
      simp [part, Spot.nextPart, other]
    next =>
      split at goesOn
      next equals =>
        obtain rfl := Option.some.inj goesOn
        subst equals
        rfl
      next => cases goesOn
  | equals tag attr =>
    simp only at goesOn
    split at goesOn
    next quote =>
      obtain rfl := Option.some.inj goesOn
      subst quote
      split <;> rfl
    next => cases goesOn
  | value tag =>
    obtain rfl := Option.some.inj goesOn
    simp only [part, Spot.nextPart]
    split <;> rfl
  | counted tag attr reversed =>
    simp only at goesOn
    split at goesOn
    next quote =>
      subst quote
      split at goesOn
      next =>
        obtain rfl := Option.some.inj goesOn
        rfl
      next => cases goesOn
    next other =>
      split at goesOn
      · cases goesOn
      · obtain rfl := Option.some.inj goesOn
        simp [part, Spot.nextPart, other]

/-- Only text is a part of nothing else. -/
theorem eq_text_of_part (same : stage.part = .text) : stage = text := by
  cases stage <;> first | rfl | cases same

/-! ## Paragraphs -/

/-- The tag of a paragraph begins in text, wherever it is read to its end. -/
theorem after?_before_paragraph (reads : text.after? v (cs ++ ['<', 'p', '>']) = some text) :
    text.after? v cs = some text := by
  rw [after?_append, Option.bind_eq_some_iff] at reads
  obtain ⟨stage, front, tag⟩ := reads
  rw [front]
  have bracket : isNameChar '<' = false := by decide
  obtain ⟨second, first, others⟩ := after?_cons_eq_some.mp tag
  cases stage with
  | text => rfl
  | name isClosing reversed => simp [next?, bracket] at first
  | value tag =>
    -- A value does not end here.
    obtain rfl := Option.some.inj first
    cases others
  | counted tag attr reversed =>
    obtain rfl := Option.some.inj first
    cases others
  | _ => cases first

end Stage

/-! ## Filling -/

section filling

variable {extraction : Extraction} {fragment : Fragment} {after : List Char}

/-- The digits of a token and its end. -/
theorem split_of_tokenAfter? (found : extraction.tokenAfter? cs = some (fragment, after)) :
    ∃ digits, cs = digits ++ extraction.closing :: after ∧ ∀ d ∈ digits, d.isDigit = true := by
  have digits := List.all_eq_true.mp (List.all_takeWhile (p := Char.isDigit) (l := cs))
  obtain ⟨back, whole⟩ := List.takeWhile_prefix (l := cs) Char.isDigit
  unfold Extraction.tokenAfter? at found
  generalize cs.takeWhile Char.isDigit = front at digits whole found
  subst whole
  simp only [List.drop_left] at found
  split at found
  next c rest =>
    split at found
    next closes =>
      obtain ⟨listed, -, same⟩ := Option.map_eq_some_iff.mp found
      obtain ⟨-, rfl⟩ := Prod.mk.inj same
      subst closes
      exact ⟨_, rfl, digits⟩
    next => cases found
  next => cases found

/-- A token is read as text. -/
theorem token_split (opening : extraction.opening ≠ '<') (closing : extraction.closing ≠ '<')
    (found : extraction.tokenAfter? cs = some (fragment, after)) :
    ∃ token, extraction.opening :: cs = token ++ after ∧ Stage.text.after? v token = some .text := by
  obtain ⟨digits, rfl, all⟩ := split_of_tokenAfter? found
  refine ⟨extraction.opening :: digits ++ [extraction.closing], by simp, Stage.after?_text ?_⟩
  simp only [List.cons_append, List.mem_cons, List.mem_append, List.not_mem_nil, or_false, not_or]
  refine ⟨Ne.symm opening, ?_, Ne.symm closing⟩
  intro member
  exact absurd (all _ member) (by decide)

/-- Sentinels stand only where markup can. -/
def TextOnly (opening : Char) (spot : Spot) (cs : List Char) : Prop :=
  ∀ front rest, cs = front ++ opening :: rest → (spot.after front).isOpen = true

theorem TextOnly.behind {opening : Char} {front rest : List Char} (placed : TextOnly opening spot (front ++ rest)) :
    TextOnly opening (spot.after front) rest := by
  intro more tail split
  rw [← Spot.after_append]
  exact placed (front ++ more) tail (by rw [split, List.append_assoc])

theorem TextOnly.tail {opening : Char} (placed : TextOnly opening spot (c :: cs)) :
    TextOnly opening (spot.next c) cs := by
  intro front rest split
  exact placed (c :: front) rest (by rw [split, List.cons_append])

theorem part_next (same : spot.part = stage.part) (goesOn : stage.next? v c = some next) :
    (spot.next c).part = next.part := by
  rw [← Stage.part_next? goesOn, ← same]
  rfl

theorem part_after (same : spot.part = stage.part) (reads : stage.after? v cs = some stop) :
    (spot.after cs).part = stop.part := by
  induction cs generalizing spot stage with
  | nil =>
    obtain rfl := Option.some.inj reads
    exact same
  | cons c rest ih =>
    obtain ⟨next, first, others⟩ := Stage.after?_cons_eq_some.mp reads
    exact ih (part_next same first) others

/-- What the place of a token is filled with leads on from text, also without the tags of a paragraph. -/
theorem placing_spec (fragment : Fragment) (after : List Char) {out inserted : List Char}
    (kept : Stage.text.after? v inserted = some .text)
    (written : Stage.text.after? v out.reverse = some .text) :
    Stage.text.after? v (inserted.reverse ++ (placing fragment out after).2.1).reverse = some .text ∧
      ∃ used, after = used ++ (placing fragment out after).2.2 ∧ Stage.text.after? v used = some .text := by
  have joined : ∀ {front : List Char}, Stage.text.after? v front.reverse = some .text →
      Stage.text.after? v (inserted.reverse ++ front).reverse = some .text := by
    intro front before
    rw [List.reverse_append, List.reverse_reverse, Stage.after?_append, before]
    exact kept
  unfold placing
  split
  next out' after' around =>
    split at around
    · cases around
    · unfold Source.Extraction.paragraphAround? at around
      split at around
      next before behind =>
        obtain ⟨rfl, rfl⟩ := Prod.mk.inj (Option.some.inj around)
        refine ⟨joined (Stage.after?_before_paragraph ?_), ['<', '/', 'p', '>'], rfl, rfl⟩
        simpa using written
      next => cases around
  next => exact ⟨joined written, [], rfl, rfl⟩

/-- Filled markup keeps to a vocabulary if all that is put in does. -/
theorem after?_fillChars {resolve : Fragment → Standing → String} (opening : extraction.opening ≠ '<')
    (closing : extraction.closing ≠ '<')
    (inserted : ∀ fragment ∈ extraction.fragments, ∀ standing, Reads v .text (resolve fragment standing) .text)
    {out : List Char} (written : Stage.text.after? v out.reverse = some stage) (same : spot.part = stage.part)
    (reads : stage.after? v cs = some stop) (placed : TextOnly extraction.opening spot cs) :
    Stage.text.after? v (extraction.fillChars resolve out cs) = some stop := by
  have goesOn : ∀ {c : Char} {out : List Char} {stage next : Stage}, Stage.text.after? v out.reverse = some stage →
      stage.next? v c = some next → Stage.text.after? v (c :: out).reverse = some next := by
    intro c out stage next before first
    rw [List.reverse_cons, Stage.after?_append, before]
    exact Stage.after?_cons_eq_some.mpr ⟨next, first, rfl⟩
  rw [← Source.Extraction.fillTrace_fst]
  fun_induction fillTrace extraction resolve out cs generalizing stage spot with
  | case1 out =>
    obtain rfl := Option.some.inj reads
    exact written
  | case2 out rest fragment after found _ _ place =>
    rename_i ih
    -- The sentinel stands in text, so nothing of a tag is open before the token.
    have isOpen := placed [] rest rfl
    simp only [Spot.after, List.foldl_nil, Spot.isOpen, Bool.and_eq_true, beq_iff_eq] at isOpen
    obtain rfl := Stage.eq_text_of_part (same.symm.trans isOpen.1)
    have member := Source.Extraction.fragment_mem_of_tokenAfter? found
    obtain ⟨token, whole, plain⟩ := @token_split v rest extraction fragment after opening closing found
    obtain ⟨front, used, split, skipped⟩ := placing_spec fragment after (inserted _ member place.1) written
    have text : Stage.text.after? v (token ++ used) = some .text := by
      rw [Stage.after?_append, plain]
      exact skipped
    rw [whole, split, ← List.append_assoc] at reads placed
    rw [Stage.after?_append, text] at reads
    exact ih front (part_after same text) reads placed.behind
  | case3 out rest missing ih =>
    obtain ⟨next, first, others⟩ := Stage.after?_cons_eq_some.mp reads
    exact ih (goesOn written first) (part_next same first) others placed.tail
  | case4 out c rest other ih =>
    obtain ⟨next, first, others⟩ := Stage.after?_cons_eq_some.mp reads
    exact ih (goesOn written first) (part_next same first) others placed.tail

/-- Filled markup keeps to a vocabulary if all that is put in does, and no token stands in a tag or in code. -/
theorem reads_fill {resolve : Fragment → Standing → String} {markup : String} (opening : extraction.opening ≠ '<')
    (closing : extraction.closing ≠ '<')
    (inserted : ∀ fragment ∈ extraction.fragments, ∀ standing, Reads v .text (resolve fragment standing) .text)
    (reads : Reads v .text markup stop) (placed : TextOnly extraction.opening (.text 0) markup.toList) :
    Reads v .text (extraction.fill markup resolve) stop := by
  unfold Reads Extraction.fill
  rw [String.toList_ofList]
  exact after?_fillChars opening closing inserted rfl rfl reads placed

end filling

end Galley.Html
