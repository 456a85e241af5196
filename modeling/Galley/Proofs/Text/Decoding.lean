import Galley.Html.Node
import Galley.Text.Escape
import Galley.Text.Reference
import Mathlib

/-!
# Escaped text is decoded to itself

* `decodeChars_cons_of_ne`, `decodeChars_reference` — decoding goes character by character and
  reference by reference;
* `decodeChars_escapeText`, `decodeChars_escapeAttribute` — decoding undoes the escapes of a page;
* `not_mem_escapeText`, `not_mem_escapeAttribute` — what the escapes of a page leave out;
* `decodeChars_escapeHtml` — it undoes those of a tree of markup as well;
* `escapeText_eq_escapeHtml_iff` — the two differ in no-break spaces only.
-/

namespace Galley.Text

/-! ## One step -/

theorem length_drop_takeWhile_le {p : Char → Bool} {cs after : List Char} {c : Char}
    (ends : cs.drop (cs.takeWhile p).length = c :: after) : after.length < cs.length := by
  have lengths := congrArg List.length ends
  rw [List.length_drop, List.length_cons] at lengths
  omega

/-- More fuel than characters changes nothing. -/
theorem decodeGo_eq (fuel : Nat) (cs : List Char) (enough : cs.length ≤ fuel) :
    decodeChars.go fuel cs = decodeChars cs := by
  unfold decodeChars
  generalize sized : cs.length = size at enough ⊢
  -- both runs step down together, to what is left behind a reference or behind one character
  induction size using Nat.strong_induction_on generalizing fuel cs with
  | h size ih =>
    match size, fuel, cs with
    | _, 0, cs =>
      obtain rfl : cs = [] := List.eq_nil_of_length_eq_zero (by omega)
      subst sized
      rfl
    | 0, _ + 1, cs =>
      obtain rfl : cs = [] := List.eq_nil_of_length_eq_zero sized
      rfl
    | size + 1, fuel + 1, c :: rest =>
      have restSized : rest.length = size := by simpa using sized
      have step : ∀ after : List Char, after.length ≤ size →
          decodeChars.go fuel after = decodeChars.go size after := by
        intro after short
        rw [ih after.length (by omega) fuel after rfl (by omega),
          ih after.length (by omega) size after rfl (by omega)]
      unfold decodeChars.go
      dsimp only
      split
      next =>
        split
        next after ends =>
          have short := length_drop_takeWhile_le ends
          split
          next => rw [step after (by omega)]
          next => rw [step rest (by omega)]
        next => rw [step rest (by omega)]
      next => rw [step rest (by omega)]

@[simp]
theorem decodeChars_nil : decodeChars [] = [] := rfl

/-- A character that begins no reference stays. -/
theorem decodeChars_cons_of_ne {c : Char} (plain : c ≠ '&') (rest : List Char) :
    decodeChars (c :: rest) = c :: decodeChars rest := by
  rw [← decodeGo_eq (rest.length + 1) (c :: rest) (by simp)]
  unfold decodeChars.go
  rw [if_neg plain, decodeGo_eq _ _ le_rfl]

/-- A complete reference is replaced, whatever follows. -/
theorem decodeChars_reference {name chars : List Char}
    (single : ∀ c ∈ name, c ≠ ';' ∧ c ≠ '&') (known : decodeReference? name = some chars)
    (after : List Char) :
    decodeChars ('&' :: name ++ ';' :: after) = chars ++ decodeChars after := by
  have taken : (name ++ ';' :: after).takeWhile (fun d => d != ';' && d != '&') = name := by
    rw [List.takeWhile_append_of_pos, List.takeWhile_cons_of_neg (by simp), List.append_nil]
    intro c member
    simp [single c member]
  rw [List.cons_append,
    ← decodeGo_eq ((name ++ ';' :: after).length + 1) ('&' :: (name ++ ';' :: after)) (by simp)]
  unfold decodeChars.go
  rw [if_pos rfl]
  dsimp only
  rw [taken, List.drop_left]
  simp only [known]
  rw [decodeGo_eq _ _ (by simp; omega)]

/-! ## What is written escaped -/

theorem decodeReference?_markup :
    decodeReference? ['a', 'm', 'p'] = some ['&'] ∧ decodeReference? ['l', 't'] = some ['<'] ∧
      decodeReference? ['g', 't'] = some ['>'] ∧
        decodeReference? ['n', 'b', 's', 'p'] = some ['\u00a0'] := by
  refine ⟨?_, ?_, ?_, ?_⟩ <;> decide

/-- What is written for one character between tags is decoded to that character. -/
theorem decodeChars_escapeTextChar (c : Char) (after : List Char) :
    decodeChars (escapeTextChar c ++ after) = c :: decodeChars after := by
  obtain ⟨amp, lt, gt, -⟩ := decodeReference?_markup
  unfold escapeTextChar
  split_ifs with isAmp isLt isGt
  · subst isAmp
    exact decodeChars_reference (by simp) amp after
  · subst isLt
    exact decodeChars_reference (by simp) lt after
  · subst isGt
    exact decodeChars_reference (by simp) gt after
  · exact decodeChars_cons_of_ne isAmp after

/-- The same holds of what a tree of markup writes for it. -/
theorem decodeChars_escapeHtmlChar (c : Char) (after : List Char) :
    decodeChars (Html.escapeTextChar c ++ after) = c :: decodeChars after := by
  obtain ⟨amp, lt, gt, nbsp⟩ := decodeReference?_markup
  unfold Html.escapeTextChar
  split_ifs with isAmp isSpace isLt isGt
  · subst isAmp
    exact decodeChars_reference (by simp) amp after
  · subst isSpace
    exact decodeChars_reference (by simp) nbsp after
  · subst isLt
    exact decodeChars_reference (by simp) lt after
  · subst isGt
    exact decodeChars_reference (by simp) gt after
  · exact decodeChars_cons_of_ne isAmp after

/-- Decoding gives back the text that was written escaped. -/
theorem decodeChars_escapeText (cs : List Char) : decodeChars (cs.flatMap escapeTextChar) = cs := by
  induction cs with
  | nil => rfl
  | cons c rest ih => rw [List.flatMap_cons, decodeChars_escapeTextChar, ih]

/-- An attribute is written with a reference for each quote as well. -/
theorem decodeChars_escapeAttributeChar (c : Char) (after : List Char) :
    decodeChars (escapeAttributeChar c ++ after) = c :: decodeChars after := by
  have quot : decodeReference? ['q', 'u', 'o', 't'] = some ['\x22'] := by decide
  unfold escapeAttributeChar
  split_ifs with isQuote
  · subst isQuote
    exact decodeChars_reference (by simp) quot after
  · exact decodeChars_escapeTextChar c after

/-- Text without ampersands stays as it is, whatever follows. -/
theorem decodeChars_append_of_not_mem {front : List Char} (plain : '&' ∉ front) (after : List Char) :
    decodeChars (front ++ after) = front ++ decodeChars after := by
  induction front with
  | nil => rfl
  | cons c front ih =>
    obtain ⟨other, plain⟩ := not_or.mp (mt List.mem_cons.mpr plain)
    rw [List.cons_append, decodeChars_cons_of_ne (Ne.symm other), ih plain, List.cons_append]

theorem decodeChars_escapeText_append (cs after : List Char) :
    decodeChars (cs.flatMap escapeTextChar ++ after) = cs ++ decodeChars after := by
  induction cs with
  | nil => rfl
  | cons c rest ih =>
    rw [List.flatMap_cons, List.append_assoc, decodeChars_escapeTextChar, ih, List.cons_append]

theorem decodeChars_escapeAttribute (cs : List Char) :
    decodeChars (cs.flatMap escapeAttributeChar) = cs := by
  induction cs with
  | nil => rfl
  | cons c rest ih => rw [List.flatMap_cons, decodeChars_escapeAttributeChar, ih]

theorem decodeChars_escapeHtml (cs : List Char) :
    decodeChars (cs.flatMap Html.escapeTextChar) = cs := by
  induction cs with
  | nil => rfl
  | cons c rest ih => rw [List.flatMap_cons, decodeChars_escapeHtmlChar, ih]

/-! ## What is escaped -/

/-- Between tags no bracket is written. -/
theorem not_mem_escapeText {c : Char} (bracket : c = '<' ∨ c = '>') (cs : List Char) :
    c ∉ cs.flatMap escapeTextChar := by
  intro member
  obtain ⟨d, -, written⟩ := List.mem_flatMap.mp member
  unfold escapeTextChar at written
  split_ifs at written with isAmp isLt isGt
  · rcases bracket with rfl | rfl <;> revert written <;> decide
  · rcases bracket with rfl | rfl <;> revert written <;> decide
  · rcases bracket with rfl | rfl <;> revert written <;> decide
  · obtain rfl := List.mem_singleton.mp written
    rcases bracket with rfl | rfl <;> contradiction

/-- In an attribute no bracket and no quote is written. -/
theorem not_mem_escapeAttribute {c : Char} (special : c = '<' ∨ c = '>' ∨ c = '\x22') (cs : List Char) :
    c ∉ cs.flatMap escapeAttributeChar := by
  intro member
  obtain ⟨d, -, written⟩ := List.mem_flatMap.mp member
  unfold escapeAttributeChar at written
  split_ifs at written with isQuote
  · rcases special with rfl | rfl | rfl <;> revert written <;> decide
  · have single : c ∈ [d].flatMap escapeTextChar := by simpa using written
    rcases special with rfl | rfl | rfl
    · exact not_mem_escapeText (.inl rfl) [d] single
    · exact not_mem_escapeText (.inr rfl) [d] single
    -- A quote is written for a quote alone, and that is escaped.
    · unfold escapeTextChar at written
      split_ifs at written with isAmp isLt isGt
      · revert written
        decide
      · revert written
        decide
      · revert written
        decide
      · exact isQuote (List.mem_singleton.mp written).symm

/-! ## Two ways of writing a text -/

theorem escapeTextChar_eq_escapeHtmlChar {c : Char} (breaks : c ≠ '\u00a0') :
    escapeTextChar c = Html.escapeTextChar c := by
  unfold escapeTextChar Html.escapeTextChar
  rw [if_neg breaks]

/-- A text is written alike in both ways if it has no no-break space. -/
theorem escapeText_eq_escapeHtml {cs : List Char} (breaks : '\u00a0' ∉ cs) :
    cs.flatMap escapeTextChar = cs.flatMap Html.escapeTextChar := by
  refine List.flatMap_congr fun c member => escapeTextChar_eq_escapeHtmlChar ?_
  rintro rfl
  exact breaks member

theorem mem_escapeText {c : Char} (plain : c ∉ ['&', '<', '>']) {cs : List Char} (member : c ∈ cs) :
    c ∈ cs.flatMap escapeTextChar := by
  refine List.mem_flatMap.mpr ⟨c, member, ?_⟩
  simp only [List.mem_cons, List.not_mem_nil, or_false, not_or] at plain
  unfold escapeTextChar
  rw [if_neg plain.1, if_neg plain.2.1, if_neg plain.2.2]
  exact List.mem_singleton.mpr rfl

/-- A tree of markup writes no character that has to be escaped, and no no-break space. -/
theorem not_mem_escapeHtml {c : Char} (escaped : c = '<' ∨ c = '>' ∨ c = '\u00a0') (cs : List Char) :
    c ∉ cs.flatMap Html.escapeTextChar := by
  intro member
  obtain ⟨d, -, written⟩ := List.mem_flatMap.mp member
  unfold Html.escapeTextChar at written
  split_ifs at written with isAmp isSpace isLt isGt
  · rcases escaped with rfl | rfl | rfl <;> revert written <;> decide
  · rcases escaped with rfl | rfl | rfl <;> revert written <;> decide
  · rcases escaped with rfl | rfl | rfl <;> revert written <;> decide
  · rcases escaped with rfl | rfl | rfl <;> revert written <;> decide
  · obtain rfl := List.mem_singleton.mp written
    rcases escaped with rfl | rfl | rfl <;> contradiction

theorem escapeText_eq_escapeHtml_iff (cs : List Char) :
    cs.flatMap escapeTextChar = cs.flatMap Html.escapeTextChar ↔ '\u00a0' ∉ cs := by
  refine ⟨fun same member => ?_, escapeText_eq_escapeHtml⟩
  have written := mem_escapeText (c := '\u00a0') (by decide) member
  rw [same] at written
  exact not_mem_escapeHtml (.inr (.inr rfl)) cs written

end Galley.Text
