import Galley.Toml.Writer
import Mathlib

/-!
# Texts are read as they were written

A text is written in one of four ways, and each of them is read back in front of anything that cannot be taken for more of
its end.

* `escape?_append`, `exists_named` — a character that is named;
* `quotedBody_encoded`, `plainBody_encoded` — texts on one line;
* `quotedLines_encoded`, `plainLines_encoded` — texts on several lines, whose end is the first three marks in a row;
* `literal?_encode` — a text in the way that is chosen for it.
-/

namespace Galley.Toml

variable {c d : Char} {cs rest : List Char}

/-! ## Named characters -/

theorem numberedChar?_append {count : Nat} (found : numberedChar? count cs = some d) (rest : List Char) :
    numberedChar? count (cs ++ rest) = some d := by
  unfold numberedChar? at found ⊢
  simp only at found ⊢
  have enough : count ≤ cs.length := by
    split at found
    next whole =>
      have length := (Bool.and_eq_true_iff.mp whole).1
      rw [beq_iff_eq, List.length_take] at length
      omega
    next => cases found
  rw [List.take_append_of_le_length enough]
  exact found

/-- A choice keeps what both of its branches keep. -/
theorem ite_eq_some_of_imp {α : Type} {found : α} {p : Prop} [Decidable p] {a a' b b' : Option α}
    (yes : a = some found → a' = some found) (no : b = some found → b' = some found) :
    (if p then a else b) = some found → (if p then a' else b') = some found := by
  split
  · exact yes
  · exact no

/-- What follows a named character does not change it. -/
theorem escape?_append {found : Char × Nat} (escaped : escape? cs = some found) (rest : List Char) :
    escape? (cs ++ rest) = some found := by
  cases cs with
  | nil => cases escaped
  | cons c cs =>
    have numbered : ∀ {count length : Nat}, (numberedChar? count cs).map (·, length) = some found →
        (numberedChar? count (cs ++ rest)).map (·, length) = some found := by
      intro count length escaped
      obtain ⟨d, known, same⟩ := Option.map_eq_some_iff.mp escaped
      rw [numberedChar?_append known, ← same]
      rfl
    rw [List.cons_append]
    unfold escape? at escaped ⊢
    revert escaped
    -- Only the last three names, which go on with digits, depend on what follows.
    iterate 8 refine ite_eq_some_of_imp id ?_
    iterate 3 refine ite_eq_some_of_imp numbered ?_
    exact id

/-- What is named when a character is written by its name: a backslash, and what it is read from. -/
theorem exists_named (small : c.toNat < 128) :
    ∃ tail : List Char, named c = '\\' :: tail ∧ escape? tail = some (c, tail.length) := by
  have all : ∀ n < 128, (named (Char.ofNat n)).head? = some '\\' ∧
      escape? (named (Char.ofNat n)).tail = some (Char.ofNat n, (named (Char.ofNat n)).tail.length) := by
    decide +kernel
  obtain ⟨begins, escaped⟩ := all c.toNat small
  rw [Char.ofNat_toNat] at begins escaped
  exact ⟨(named c).tail, (List.cons_head?_tail begins).symm, escaped⟩

theorem lt_of_not_isTextChar (control : isTextChar c = false) : c.toNat < 128 := by
  unfold isTextChar at control
  simp only [Bool.or_eq_false_iff, Bool.and_eq_false_iff, decide_eq_false_iff_not, bne_eq_false_iff_eq] at control
  omega

/-- In quotes a character stands for itself, or it is named. -/
theorem quotedChar_cases (c : Char) :
    (quotedChar c = [c] ∧ isTextChar c = true ∧ c ≠ '\\' ∧ c ≠ '\x22') ∨
      ∃ tail : List Char, quotedChar c = '\\' :: tail ∧ escape? tail = some (c, tail.length) := by
  unfold quotedChar
  split
  next special =>
    refine .inr (exists_named ?_)
    simp only [Bool.or_eq_true, decide_eq_true_eq, Bool.not_eq_true'] at special
    rcases special with ((rfl | rfl) | rfl) | control
    · decide
    · decide
    · decide
    · exact lt_of_not_isTextChar control
  next plain =>
    simp only [Bool.or_eq_true, decide_eq_true_eq, Bool.not_eq_true', not_or, Bool.not_eq_false] at plain
    exact .inl ⟨rfl, plain.2, plain.1.1.2, plain.1.2⟩

/-! ## Texts on one line -/

theorem quotedBody_quotedChar (c : Char) (rest : List Char) :
    quotedBody (quotedChar c ++ rest) = (quotedBody rest).map (c :: ·) := by
  rcases quotedChar_cases c with ⟨same, text, noBackslash, noQuote⟩ | ⟨tail, same, escaped⟩
  · rw [same, List.singleton_append, quotedBody, if_neg noQuote, if_neg noBackslash, if_pos text]
  · rw [same, List.cons_append, quotedBody, if_neg (by decide), if_pos rfl, escape?_append escaped rest]
    simp only
    rw [List.drop_left]

/-- A text in quotes is read up to its end. -/
theorem quotedBody_encoded (cs rest : List Char) :
    quotedBody (cs.flatMap quotedChar ++ '\x22' :: rest) = .ok (cs, rest) := by
  induction cs with
  | nil => rw [List.flatMap_nil, List.nil_append, quotedBody, if_pos rfl]
  | cons c cs ih =>
    rw [List.flatMap_cons, List.append_assoc, quotedBody_quotedChar, ih]
    rfl

/-- A text in apostrophes is read up to its end if it can stand there. -/
theorem plainBody_encoded (apart : '\x27' ∉ cs) (text : ∀ c ∈ cs, isTextChar c = true) (rest : List Char) :
    plainBody (cs ++ '\x27' :: rest) = .ok (cs, rest) := by
  induction cs with
  | nil => rw [List.nil_append, plainBody, if_pos rfl]
  | cons c cs ih =>
    obtain ⟨other, apart⟩ := not_or.mp (mt List.mem_cons.mpr apart)
    obtain ⟨own, others⟩ := List.forall_mem_cons.mp text
    rw [List.cons_append, plainBody, if_neg (Ne.symm other), if_pos own, ih apart others]
    rfl

/-! ## The end of a text on several lines -/

section marks

variable {mark : Char} {n : Nat}

theorem takeWhile_replicate_append (n : Nat) (stops : rest.head? ≠ some mark) :
    (List.replicate n mark ++ rest).takeWhile (· == mark) = List.replicate n mark := by
  have inner : ∀ c ∈ List.replicate n mark, (c == mark) = true := fun c member => by
    rw [List.eq_of_mem_replicate member, beq_self_eq_true]
  rw [List.takeWhile_append_of_pos inner]
  cases rest with
  | nil => simp
  | cons c rest =>
    have other : c ≠ mark := fun same => stops (by rw [same]; rfl)
    rw [List.takeWhile_cons_of_neg (by simpa using other), List.append_nil]

/-- Less than three marks in a row are no end. -/
theorem linesEnd?_eq_none (few : n < 3) (stops : rest.head? ≠ some mark) :
    linesEnd? mark (List.replicate n mark ++ rest) = none := by
  unfold linesEnd?
  simp only
  rw [takeWhile_replicate_append n stops, List.length_replicate, if_pos few]

/-- Up to two marks in front of an end belong to the text. -/
theorem linesEnd?_end (few : n ≤ 2) (stops : rest.head? ≠ some mark) :
    linesEnd? mark (List.replicate n mark ++ (List.replicate 3 mark ++ rest)) = some (List.replicate n mark, rest) := by
  have more : min (n + 3 - 3) 2 = n := by omega
  have length : (List.replicate (n + 3) mark).length = 3 + n := by
    rw [List.length_replicate]
    omega
  rw [← List.append_assoc, List.replicate_append_replicate]
  unfold linesEnd?
  simp only
  rw [takeWhile_replicate_append (n + 3) stops, List.length_replicate, if_neg (by omega), more, ← length, List.drop_left]

/-- What ends a text begins with a mark. -/
theorem exists_cons_end (mark : Char) (n : Nat) (rest : List Char) :
    ∃ tail, List.replicate n mark ++ (List.replicate 3 mark ++ rest) = mark :: tail := by
  cases n with
  | zero => exact ⟨_, rfl⟩
  | succ n => exact ⟨_, rfl⟩

theorem linesEnd?_cons_of_ne (other : c ≠ mark) : linesEnd? mark (c :: rest) = none := by
  have stops : (c :: rest).head? ≠ some mark := fun same => other (Option.some.inj same)
  exact linesEnd?_eq_none (show 0 < 3 by decide) stops

end marks

/-! ## Texts in three quotes -/

/-- A name is no end of a line. -/
theorem continued?_of_escape? {found : Char × Nat} (escaped : escape? cs = some found) (rest : List Char) :
    continued? (cs ++ rest) = none := by
  cases cs with
  | nil => cases escaped
  | cons c cs =>
    have named : isSpace c = false ∧ c ≠ '\n' ∧ c ≠ '\r' := by
      refine ⟨?_, ?_, ?_⟩
      · by_contra space
        have blank : c = ' ' ∨ c = '\t' := by
          rw [Bool.not_eq_false] at space
          simpa [isSpace] using space
        rcases blank with rfl | rfl <;> cases escaped
      · rintro rfl
        cases escaped
      · rintro rfl
        cases escaped
    unfold continued?
    rw [List.cons_append, List.dropWhile_cons_of_neg (by simp [named.1])]
    unfold dropBreak?
    split
    next same => exact absurd (List.cons.inj same).1 named.2.1
    next same => exact absurd (List.cons.inj same).1 named.2.2
    next => rfl

theorem quotedLines_escape {tail : List Char} (escaped : escape? tail = some (c, tail.length)) (rest : List Char) :
    quotedLines ('\\' :: tail ++ rest) = (quotedLines rest).map (c :: ·) := by
  rw [List.cons_append, quotedLines, linesEnd?_cons_of_ne (by decide)]
  simp only
  rw [if_pos trivial]
  split
  next after goes =>
    rw [continued?_of_escape? escaped rest] at goes
    cases goes
  next =>
    rw [escape?_append escaped rest]
    simp only
    rw [List.drop_left]

/-- A character that stands for itself, and ends nothing. -/
theorem quotedLines_cons (text : c = '\n' ∨ isTextChar c = true) (noBackslash : c ≠ '\\')
    (none : linesEnd? '\x22' (c :: rest) = none) : quotedLines (c :: rest) = (quotedLines rest).map (c :: ·) := by
  rw [quotedLines, none]
  simp only
  rw [if_neg noBackslash, if_pos (by simpa using text)]

/-- The quotes that a text begins with, as it is written behind `run` of them. -/
theorem exists_quotes (cs : List Char) {run : Nat} (few : run ≤ 2) :
    ∃ n, run + n ≤ 2 ∧ ((cs = List.replicate n '\x22' ∧ quotedLinesChars run cs = List.replicate n '\x22') ∨
      ∃ d tail, d ≠ '\x22' ∧ quotedLinesChars run cs = List.replicate n '\x22' ++ d :: tail) := by
  induction cs generalizing run with
  | nil => exact ⟨0, few, .inl ⟨rfl, rfl⟩⟩
  | cons c cs ih =>
    rw [quotedLinesChars]
    split_ifs with isBreak isQuote full
    · exact ⟨0, few, .inr ⟨c, _, by rw [isBreak]; decide, rfl⟩⟩
    · obtain ⟨tail, same, -⟩ := exists_named (c := c) (by rw [isQuote]; decide)
      exact ⟨0, few, .inr ⟨'\\', tail ++ quotedLinesChars 0 cs, by decide, by rw [same]; rfl⟩⟩
    · obtain ⟨n, fewer, shape⟩ := ih (show run + 1 ≤ 2 by omega)
      refine ⟨n + 1, by omega, ?_⟩
      subst isQuote
      rcases shape with ⟨all, same⟩ | ⟨d, tail, other, same⟩
      · exact .inl ⟨by rw [all]; rfl, by rw [same]; rfl⟩
      · exact .inr ⟨d, tail, other, by rw [same]; rfl⟩
    · rcases quotedChar_cases c with ⟨same, -, -, -⟩ | ⟨tail, same, -⟩
      · exact ⟨0, few, .inr ⟨c, quotedLinesChars 0 cs, isQuote, by rw [same]; rfl⟩⟩
      · exact ⟨0, few, .inr ⟨'\\', tail ++ quotedLinesChars 0 cs, by decide, by rw [same]; rfl⟩⟩

/-- A text of up to two quotes, and its end. -/
theorem quotedLines_end {n : Nat} (few : n ≤ 2) (stops : rest.head? ≠ some '\x22') :
    quotedLines (List.replicate n '\x22' ++ (List.replicate 3 '\x22' ++ rest)) = .ok (List.replicate n '\x22', rest) := by
  have found := linesEnd?_end few stops
  obtain ⟨tail, same⟩ := exists_cons_end '\x22' n rest
  rw [same] at found ⊢
  rw [quotedLines, found]

/-- A text in three quotes is read up to its end. -/
theorem quotedLines_encoded (cs : List Char) {run : Nat} (few : run ≤ 2) (stops : rest.head? ≠ some '\x22') :
    quotedLines (quotedLinesChars run cs ++ (List.replicate 3 '\x22' ++ rest)) = .ok (cs, rest) := by
  induction cs generalizing run with
  | nil => exact quotedLines_end (Nat.zero_le 2) stops
  | cons c cs ih =>
    rw [quotedLinesChars]
    split_ifs with isBreak isQuote full
    · have other : c ≠ '\x22' := by rw [isBreak]; decide
      have noBackslash : c ≠ '\\' := by rw [isBreak]; decide
      rw [List.cons_append, quotedLines_cons (.inl isBreak) noBackslash (linesEnd?_cons_of_ne other),
        ih (Nat.zero_le 2)]
      rfl
    · obtain ⟨tail, same, escaped⟩ := exists_named (c := c) (by rw [isQuote]; decide)
      rw [same, List.append_assoc, quotedLines_escape escaped, ih (Nat.zero_le 2)]
      rfl
    · -- A quote that stands for itself: it is read as an end only if nothing but quotes follows.
      subst isQuote
      obtain ⟨n, fewer, shape⟩ := exists_quotes cs (show run + 1 ≤ 2 by omega)
      rcases shape with ⟨all, same⟩ | ⟨d, tail, other, same⟩
      · rw [same, all, List.cons_append, ← List.cons_append, ← List.replicate_succ]
        exact quotedLines_end (by omega) stops
      · have goes := ih (show run + 1 ≤ 2 by omega)
        have noEnd : linesEnd? '\x22' ('\x22' :: (quotedLinesChars (run + 1) cs ++ (List.replicate 3 '\x22' ++ rest))) =
            none := by
          rw [same, List.append_assoc, ← List.cons_append, ← List.replicate_succ]
          exact linesEnd?_eq_none (by omega) (by simpa using other)
        rw [List.cons_append, quotedLines_cons (.inr (by decide)) (by decide) noEnd, goes]
        rfl
    · rcases quotedChar_cases c with ⟨same, text, noBackslash, noQuote⟩ | ⟨tail, same, escaped⟩
      · rw [same, List.append_assoc, List.singleton_append,
          quotedLines_cons (.inr text) noBackslash (linesEnd?_cons_of_ne noQuote), ih (Nat.zero_le 2)]
        rfl
      · rw [same, List.append_assoc, quotedLines_escape escaped, ih (Nat.zero_le 2)]
        rfl

/-! ## Texts in three apostrophes -/

theorem le_longestRun (mark : Char) (run : Nat) (cs : List Char) : run ≤ longestRun mark run cs := by
  induction cs generalizing run with
  | nil => exact le_rfl
  | cons c cs ih =>
    unfold longestRun
    split
    · exact (Nat.le_succ run).trans (ih (run + 1))
    · exact le_max_left _ _

/-- The marks that a text begins with are part of a run. -/
theorem le_longestRun_replicate (mark : Char) (run n : Nat) (cs : List Char) :
    run + n ≤ longestRun mark run (List.replicate n mark ++ cs) := by
  induction n generalizing run with
  | zero => exact le_longestRun mark run cs
  | succ n ih =>
    rw [List.replicate_succ, List.cons_append, longestRun, if_pos (beq_self_eq_true mark)]
    have later := ih (run + 1)
    omega

/-- A text is marks alone, or something else stands behind those that it begins with. -/
theorem exists_marks (mark : Char) (cs : List Char) :
    ∃ n, cs = List.replicate n mark ∨ ∃ d tail, d ≠ mark ∧ cs = List.replicate n mark ++ d :: tail := by
  induction cs with
  | nil => exact ⟨0, .inl rfl⟩
  | cons c cs ih =>
    by_cases same : c = mark
    · obtain ⟨n, shape⟩ := ih
      refine ⟨n + 1, ?_⟩
      rcases shape with rfl | ⟨d, tail, other, rfl⟩
      · exact .inl (by rw [same, List.replicate_succ])
      · exact .inr ⟨d, tail, other, by rw [same, List.replicate_succ, List.cons_append]⟩
    · exact ⟨0, .inr ⟨c, cs, same, rfl⟩⟩

/-- A text of up to two apostrophes, and its end. -/
theorem plainLines_end {n : Nat} (few : n ≤ 2) (stops : rest.head? ≠ some '\x27') :
    plainLines (List.replicate n '\x27' ++ (List.replicate 3 '\x27' ++ rest)) = .ok (List.replicate n '\x27', rest) := by
  have found := linesEnd?_end few stops
  obtain ⟨tail, same⟩ := exists_cons_end '\x27' n rest
  rw [same] at found ⊢
  rw [plainLines, found]

/-- A text in three apostrophes is read up to its end if no more than two of them stand in a row. -/
theorem plainLines_encoded {run : Nat} (few : longestRun '\x27' run cs ≤ 2)
    (text : ∀ c ∈ cs, c = '\n' ∨ isTextChar c = true) (stops : rest.head? ≠ some '\x27') :
    plainLines (cs ++ (List.replicate 3 '\x27' ++ rest)) = .ok (cs, rest) := by
  induction cs generalizing run with
  | nil => exact plainLines_end (Nat.zero_le 2) stops
  | cons c cs ih =>
    obtain ⟨own, others⟩ := List.forall_mem_cons.mp text
    have goes : linesEnd? '\x27' (c :: (cs ++ (List.replicate 3 '\x27' ++ rest))) = none →
        plainLines (cs ++ (List.replicate 3 '\x27' ++ rest)) = .ok (cs, rest) →
        plainLines (c :: cs ++ (List.replicate 3 '\x27' ++ rest)) = .ok (c :: cs, rest) := by
      intro noEnd later
      rw [List.cons_append, plainLines, noEnd]
      simp only
      rw [if_pos (by simpa using own), later]
      rfl
    by_cases isMark : c = '\x27'
    · -- What is left of the text is marks up to its end, or they are too few for one.
      subst isMark
      have counted : longestRun '\x27' (run + 1) cs ≤ 2 := by
        rwa [longestRun, if_pos (beq_self_eq_true '\x27')] at few
      obtain ⟨n, shape⟩ := exists_marks '\x27' cs
      rcases shape with all | ⟨d, tail, other, same⟩
      · have short := le_longestRun_replicate '\x27' (run + 1) n []
        rw [List.append_nil, ← all] at short
        rw [all, ← List.replicate_succ]
        exact plainLines_end (by omega) stops
      · have short := le_longestRun_replicate '\x27' (run + 1) n (d :: tail)
        rw [← same] at short
        refine goes ?_ (ih counted others)
        rw [same, List.append_assoc, ← List.cons_append, ← List.replicate_succ]
        exact linesEnd?_eq_none (by omega) (by simpa using other)
    · rw [longestRun, if_neg (by simpa using isMark)] at few
      exact goes (linesEnd?_cons_of_ne isMark) (ih ((le_max_right _ _).trans few) others)

/-! ## The way that is chosen -/

theorem isTextChar_of_not_named (clean : cs.any mustBeNamed = false) : ∀ c ∈ cs, c = '\n' ∨ isTextChar c = true := by
  intro c member
  have own := List.any_eq_false.mp clean c member
  by_cases isBreak : c = '\n'
  · exact .inl isBreak
  · right
    simpa [mustBeNamed, isBreak] using own

/-- A text that is written without names can be. -/
theorem fits_styleOf (cs : List Char) :
    styleOf cs = .quoted ∨ styleOf cs = .quotedLines ∨ (styleOf cs).fits cs = true := by
  unfold styleOf
  simp only
  cases found : [Style.quoted, .plain, .quotedLines, .plainLines].find? (·.fits cs) with
  | none =>
    rw [Option.getD_none]
    split
    · exact .inr (.inl rfl)
    · exact .inl rfl
  | some style =>
    have usable := List.find?_some found
    exact .inr (.inr usable)

/-- The line feed in front of a text on several lines is dropped, and nothing else. -/
theorem dropBreak_leadingBreak {written : List Char} (same : '\n' ∉ cs → written.head? ≠ some '\n' ∧ written.head? ≠ some '\r') :
    dropBreak (leadingBreak cs ++ written) = written := by
  unfold leadingBreak
  split
  next => rfl
  next absent =>
    obtain ⟨noFeed, noReturn⟩ := same (by simpa using absent)
    unfold dropBreak dropBreak?
    rw [List.nil_append]
    split
    next => simp at noFeed
    next => simp at noReturn
    next => rfl

/-- A text in quotes, as it is written in a line. -/
theorem lineLiteral?_quoted (cs rest : List Char) :
    lineLiteral? (Style.quoted.encode cs ++ rest) = some (.ok (cs, rest)) := by
  have body := quotedBody_encoded cs rest
  simp only [Style.encode, List.cons_append, List.append_assoc, List.nil_append, lineLiteral?, body]

theorem lineLiteral?_plain (fits : Style.plain.fits cs = true) (rest : List Char) :
    lineLiteral? (Style.plain.encode cs ++ rest) = some (.ok (cs, rest)) := by
  simp only [Style.fits, Bool.and_eq_true, Bool.not_eq_true', List.contains_eq_mem, decide_eq_false_iff_not] at fits
  obtain ⟨clean, apart, oneLine⟩ := fits
  have text : ∀ c ∈ cs, isTextChar c = true := fun c member =>
    (isTextChar_of_not_named clean c member).resolve_left fun isBreak => oneLine (isBreak ▸ member)
  have body := plainBody_encoded apart text rest
  simp only [Style.encode, List.cons_append, List.append_assoc, List.nil_append, lineLiteral?, body]

/-- A text on one line does not begin with three marks. -/
theorem literal?_of_short {whole : List Char} (noQuotes : ¬['\x22', '\x22', '\x22'] <+: whole)
    (noMarks : ¬['\x27', '\x27', '\x27'] <+: whole) : literal? whole = lineLiteral? whole := by
  unfold literal?
  split
  next after => exact absurd ⟨after, rfl⟩ noQuotes
  next after => exact absurd ⟨after, rfl⟩ noMarks
  next => rfl

/-- What is written for a character in quotes begins with no quote and no line end. -/
theorem exists_quotedChar (c : Char) : ∃ d tail, quotedChar c = d :: tail ∧ d ≠ '\x22' ∧ d ≠ '\n' ∧ d ≠ '\r' := by
  rcases quotedChar_cases c with ⟨same, text, -, noQuote⟩ | ⟨tail, same, -⟩
  · refine ⟨c, [], same, noQuote, ?_, ?_⟩ <;> rintro rfl <;> revert text <;> decide
  · exact ⟨'\\', tail, same, by decide, by decide, by decide⟩

/-- A mark and its partner behind it are no beginning of three. -/
theorem not_prefix_of_mark {mark : Char} {written : List Char} (apart : cs = [] ∨ ∃ d tail, written = d :: tail ∧ d ≠ mark)
    (empty : cs = [] → written = []) (stops : rest.head? ≠ some mark) :
    ¬[mark, mark, mark] <+: mark :: (written ++ ([mark] ++ rest)) := by
  rw [List.cons_prefix_cons]
  rintro ⟨-, begins⟩
  rcases apart with none | ⟨d, tail, rfl, other⟩
  · rw [empty none] at begins
    have third := (List.cons_prefix_cons.mp begins).2
    cases rest with
    | nil => simp at third
    | cons d rest => exact stops (congrArg some (List.cons_prefix_cons.mp third).1.symm)
  · exact other (List.cons_prefix_cons.mp begins).1.symm

theorem literal?_quoted (cs : List Char) (noQuote : rest.head? ≠ some '\x22') :
    literal? (Style.quoted.encode cs ++ rest) = some (.ok (cs, rest)) := by
  rw [literal?_of_short ?_ ?_]
  · exact lineLiteral?_quoted cs rest
  · have apart : cs = [] ∨ ∃ d tail, cs.flatMap quotedChar = d :: tail ∧ d ≠ '\x22' := by
      cases cs with
      | nil => exact .inl rfl
      | cons c cs =>
        obtain ⟨d, tail, same, other, -⟩ := exists_quotedChar c
        exact .inr ⟨d, tail ++ cs.flatMap quotedChar, by rw [List.flatMap_cons, same, List.cons_append], other⟩
    have short := not_prefix_of_mark apart (fun none => by rw [none, List.flatMap_nil]) noQuote
    simpa only [Style.encode, List.cons_append, List.append_assoc] using short
  · simp [Style.encode]

theorem literal?_plain (fits : Style.plain.fits cs = true) (noMark : rest.head? ≠ some '\x27') :
    literal? (Style.plain.encode cs ++ rest) = some (.ok (cs, rest)) := by
  have absent : '\x27' ∉ cs := by
    simp only [Style.fits, Bool.and_eq_true, Bool.not_eq_true', List.contains_eq_mem, decide_eq_false_iff_not] at fits
    exact fits.2.1
  rw [literal?_of_short ?_ ?_]
  · exact lineLiteral?_plain fits rest
  · simp [Style.encode]
  · have apart : cs = [] ∨ ∃ d tail, cs = d :: tail ∧ d ≠ '\x27' := by
      cases cs with
      | nil => exact .inl rfl
      | cons c cs => exact .inr ⟨c, cs, rfl, fun same => absent (same ▸ List.mem_cons_self)⟩
    have short := not_prefix_of_mark apart id noMark
    simpa only [Style.encode, List.cons_append, List.append_assoc] using short

theorem literal?_quotedLines (cs : List Char) (noQuote : rest.head? ≠ some '\x22') :
    literal? (Style.quotedLines.encode cs ++ rest) = some (.ok (cs, rest)) := by
  have body := quotedLines_encoded cs (Nat.zero_le 2) noQuote
  have begins : '\n' ∉ cs → (quotedLinesChars 0 cs ++ (List.replicate 3 '\x22' ++ rest)).head? ≠ some '\n' ∧
      (quotedLinesChars 0 cs ++ (List.replicate 3 '\x22' ++ rest)).head? ≠ some '\r' := by
    intro oneLine
    cases cs with
    | nil => exact ⟨by simp [quotedLinesChars, List.replicate_succ], by simp [quotedLinesChars, List.replicate_succ]⟩
    | cons c cs =>
      have notBreak : c ≠ '\n' := fun same => oneLine (same ▸ List.mem_cons_self)
      obtain ⟨d, tail, same, -, noFeed, noReturn⟩ := exists_quotedChar c
      rw [quotedLinesChars, if_neg notBreak, same]
      split <;> simp_all
  have unbroken := dropBreak_leadingBreak begins
  have spelled : Style.quotedLines.encode cs ++ rest = '\x22' :: '\x22' :: '\x22' ::
      (leadingBreak cs ++ (quotedLinesChars 0 cs ++ (List.replicate 3 '\x22' ++ rest))) := by
    simp only [Style.encode, List.append_assoc]
    rfl
  simp only [spelled, literal?, unbroken, body]

theorem literal?_plainLines (fits : Style.plainLines.fits cs = true) (noMark : rest.head? ≠ some '\x27') :
    literal? (Style.plainLines.encode cs ++ rest) = some (.ok (cs, rest)) := by
  simp only [Style.fits, Bool.and_eq_true, Bool.not_eq_true', decide_eq_true_eq] at fits
  obtain ⟨clean, few⟩ := fits
  have text := isTextChar_of_not_named clean
  have body := plainLines_encoded few text noMark
  have begins : '\n' ∉ cs → (cs ++ (List.replicate 3 '\x27' ++ rest)).head? ≠ some '\n' ∧
      (cs ++ (List.replicate 3 '\x27' ++ rest)).head? ≠ some '\r' := by
    intro oneLine
    cases cs with
    | nil => exact ⟨by simp [List.replicate_succ], by simp [List.replicate_succ]⟩
    | cons c cs =>
      have shown := (text c List.mem_cons_self).resolve_left fun same => oneLine (same ▸ List.mem_cons_self)
      refine ⟨?_, ?_⟩ <;> rintro same <;> obtain rfl := Option.some.inj same <;> revert shown <;> decide
  have unbroken := dropBreak_leadingBreak begins
  have spelled : Style.plainLines.encode cs ++ rest = '\x27' :: '\x27' :: '\x27' ::
      (leadingBreak cs ++ (cs ++ (List.replicate 3 '\x27' ++ rest))) := by
    simp only [Style.encode, List.append_assoc]
    rfl
  simp only [spelled, literal?, unbroken, body]

/-- A text is read as it was written, in front of anything but another mark. -/
theorem literal?_encode (cs : List Char) (noQuote : rest.head? ≠ some '\x22') (noMark : rest.head? ≠ some '\x27') :
    literal? (encode cs ++ rest) = some (.ok (cs, rest)) := by
  have fits := fits_styleOf cs
  unfold encode
  cases chosen : styleOf cs with
  | quoted => exact literal?_quoted cs noQuote
  | plain => exact literal?_plain (by simpa [chosen] using fits) noMark
  | quotedLines => exact literal?_quotedLines cs noQuote
  | plainLines => exact literal?_plainLines (by simpa [chosen] using fits) noMark

end Galley.Toml
