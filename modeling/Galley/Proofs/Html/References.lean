import Galley.Html.Token
import Galley.Proofs.Text.Runs

/-!
# References in markup

A reference ends before the quote that closes a value, so what a value stands for does not depend on what follows it.

* `reference_before` — references in front of a quote;
* `reference_used` — what a reference takes is no tag;
* `valueOf` — what a value stands for, and `attributeValue_spec`, how it is read;
* `valueOf_ampersand`, `valueOf_apostrophe` — references that are written in addresses.
-/

namespace Galley.Html

/-! ## References in front of a quote -/

variable {c : Char} {cs rest : List Char}

theorem numberReference?_before {isDigit : Char → Bool} {value : List Char → Nat}
    (other : isDigit '\x22' = false) (cs rest : List Char) :
    numberReference? isDigit value (cs ++ '\x22' :: rest) =
      (numberReference? isDigit value cs).map fun read => (read.1, read.2 ++ '\x22' :: rest) := by
  have within : (cs.takeWhile isDigit).length ≤ cs.length := (List.takeWhile_prefix isDigit).length_le
  unfold numberReference?
  simp only [Text.takeWhile_before other, List.drop_append_of_le_length within]
  by_cases none : (cs.takeWhile isDigit).isEmpty = true
  · simp [none]
  · cases after : cs.drop (cs.takeWhile isDigit).length with
    | nil => simp [none]
    | cons d tail => by_cases semicolon : d = ';' <;> simp [none, semicolon]

/-- Whether a name without semicolon does not count because of what follows. -/
def blocksName (inAttribute : Bool) (cs : List Char) : Bool :=
  inAttribute && cs.head?.any fun c => c == '=' || c.isAlphanum

theorem nameReference?_succ (inAttribute : Bool) (cs : List Char) (length : Nat) :
    nameReference? inAttribute cs (length + 1) =
      match Text.named? (cs.take (length + 1)) with
      | none => nameReference? inAttribute cs length
      | some found =>
        if (cs.drop (length + 1)).head? = some ';' then some (found.chars, cs.drop (length + 2))
        else if found.bare = false then nameReference? inAttribute cs length
        else if blocksName inAttribute (cs.drop (length + 1)) then none
        else some (found.chars, cs.drop (length + 1)) := by
  have next : cs.drop (length + 2) = (cs.drop (length + 1)).drop 1 := by rw [List.drop_drop]
  rw [nameReference?, next]
  simp only [blocksName]
  generalize cs.drop (length + 1) = after
  cases Text.named? (cs.take (length + 1)) with
  | none => rfl
  | some found =>
    rcases after with _ | ⟨c, tail⟩
    · cases inAttribute <;> simp
    · by_cases semicolon : c = ';'
      · simp [semicolon]
      · simp only [List.head?_cons, Option.some.injEq, semicolon, if_false]
        split
        next same => exact absurd (List.cons.inj same).1 semicolon
        next same _ =>
          obtain rfl := Option.some.inj same
          simp
        next absent => cases absent
 
theorem nameReference?_before (inAttribute : Bool) (cs rest : List Char) {length : Nat}
    (within : length ≤ cs.length) :
    nameReference? inAttribute (cs ++ '\x22' :: rest) length =
      (nameReference? inAttribute cs length).map fun read => (read.1, read.2 ++ '\x22' :: rest) := by
  induction length with
  | zero => rfl
  | succ length ih =>
    have shorter := ih (Nat.le_of_succ_le within)
    have next : ∀ text : List Char, text.drop (length + 2) = (text.drop (length + 1)).drop 1 := fun text => by
      rw [List.drop_drop]
    simp only [nameReference?_succ, shorter, next, List.take_append_of_le_length within,
      List.drop_append_of_le_length within]
    cases Text.named? (cs.take (length + 1)) with
    | none => rfl
    | some found =>
      obtain ⟨chars, bare⟩ := found
      rcases cs.drop (length + 1) with _ | ⟨d, tail⟩
      · -- The quote comes next, and it neither ends the name nor blocks it.
        cases bare <;> simp [blocksName]
      · by_cases semicolon : d = ';'
        · simp [semicolon]
        · cases bare
          · simp [semicolon]
          · cases blocked : blocksName inAttribute (d :: tail) <;> simp_all [blocksName]

/-- Whether a character is a hexadecimal digit. -/
def isHexDigit (c : Char) : Bool := (Text.hexValue? c).isSome

/-- A reference by number or by name, without its ampersand, and the text after it. -/
def namedOrNumbered? (inAttribute : Bool) : List Char → Option (List Char × List Char)
  | '#' :: 'x' :: rest => numberReference? isHexDigit Text.hexNumber rest
  | '#' :: 'X' :: rest => numberReference? isHexDigit Text.hexNumber rest
  | '#' :: rest => numberReference? Char.isDigit Text.decimalNumber rest
  | cs => nameReference? inAttribute cs ((cs.take maxNameLength).takeWhile Char.isAlphanum).length

theorem reference_eq (inAttribute : Bool) (cs : List Char) :
    reference inAttribute cs = (namedOrNumbered? inAttribute cs).getD (['&'], cs) := by
  unfold reference
  fun_cases namedOrNumbered? inAttribute cs with
  | case1 rest => rfl
  | case2 rest => rfl
  | case3 rest noSmall noCapital => simp
  | case4 cs noSmall noCapital noDecimal => simp

theorem namedOrNumbered?_before (inAttribute : Bool) (cs rest : List Char) :
    namedOrNumbered? inAttribute (cs ++ '\x22' :: rest) =
      (namedOrNumbered? inAttribute cs).map fun read => (read.1, read.2 ++ '\x22' :: rest) := by
  have letters : ((cs ++ '\x22' :: rest).take maxNameLength).takeWhile Char.isAlphanum =
      (cs.take maxNameLength).takeWhile Char.isAlphanum := by
    rw [List.take_append]
    cases maxNameLength - cs.length with
    | zero => rw [List.take_zero, List.append_nil]
    | succ more => rw [List.take_succ_cons, Text.takeWhile_before (by decide)]
  have named : nameReference? inAttribute (cs ++ '\x22' :: rest)
      (((cs ++ '\x22' :: rest).take maxNameLength).takeWhile Char.isAlphanum).length =
        (nameReference? inAttribute cs ((cs.take maxNameLength).takeWhile Char.isAlphanum).length).map
          fun read => (read.1, read.2 ++ '\x22' :: rest) := by
    rw [letters]
    exact nameReference?_before inAttribute cs rest
      (Nat.le_trans (List.takeWhile_prefix _).length_le (List.length_take_le' _ _))
  have hexadecimal := fun text => @numberReference?_before isHexDigit Text.hexNumber (by decide) text rest
  have decimal := fun text => @numberReference?_before Char.isDigit Text.decimalNumber (by decide) text rest
  fun_cases namedOrNumbered? inAttribute cs with
  | case1 text => exact hexadecimal text
  | case2 text => exact hexadecimal text
  | case3 text noSmall noCapital =>
    rw [← decimal]
    rcases text with _ | ⟨d, text⟩
    · rfl
    · simp_all [namedOrNumbered?]
  | case4 cs noSmall noCapital noDecimal =>
    rw [← named]
    rcases cs with _ | ⟨c, text⟩
    · simp [namedOrNumbered?]
    · simp_all [namedOrNumbered?]

/-- A reference does not go on behind a quote. -/
theorem reference_before (inAttribute : Bool) (cs rest : List Char) :
    reference inAttribute (cs ++ '\x22' :: rest) =
      ((reference inAttribute cs).1, (reference inAttribute cs).2 ++ '\x22' :: rest) := by
  rw [reference_eq, reference_eq, namedOrNumbered?_before]
  cases namedOrNumbered? inAttribute cs <;> rfl

/-! ## What a reference takes -/

theorem numberReference?_used {isDigit : Char → Bool} {value : List Char → Nat} {chars : List Char}
    (other : isDigit '<' = false) (read : numberReference? isDigit value cs = some (chars, rest)) :
    ∃ used, cs = used ++ rest ∧ '<' ∉ used := by
  obtain ⟨after, split⟩ := List.takeWhile_prefix (l := cs) isDigit
  have dropped : cs.drop (cs.takeWhile isDigit).length = after :=
    (congrArg (List.drop _) split.symm).trans List.drop_left
  have plain : '<' ∉ cs.takeWhile isDigit := fun member => by
    rw [List.mem_takeWhile_imp member] at other
    cases other
  unfold numberReference? at read
  simp only [dropped] at read
  split at read
  · cases read
  · obtain ⟨-, rfl⟩ := Prod.mk.inj (Option.some.inj read)
    split
    next tail =>
      exact ⟨cs.takeWhile isDigit ++ [';'], by rw [List.append_assoc]; exact split.symm, by simpa using plain⟩
    next => exact ⟨_, split.symm, plain⟩

theorem nameReference?_used {inAttribute : Bool} {length : Nat} {chars : List Char}
    (plain : '<' ∉ cs.take length) (read : nameReference? inAttribute cs length = some (chars, rest)) :
    ∃ used, cs = used ++ rest ∧ '<' ∉ used := by
  induction length with
  | zero => cases read
  | succ length ih =>
    have shorter := ih fun member => plain (List.take_subset_take_left _ (Nat.le_succ length) member)
    rw [nameReference?_succ] at read
    cases named : Text.named? (cs.take (length + 1)) with
    | none =>
      rw [named] at read
      exact shorter read
    | some found =>
      rw [named] at read
      simp only at read
      split at read
      next semicolon =>
        obtain ⟨-, rfl⟩ := Prod.mk.inj (Option.some.inj read)
        obtain ⟨tail, after⟩ := List.head?_eq_some_iff.mp semicolon
        have next : cs.drop (length + 1 + 1) = tail := by
          rw [← List.drop_drop, after]
          rfl
        refine ⟨cs.take (length + 1) ++ [';'], ?_, by simpa using plain⟩
        rw [next, List.append_assoc, List.singleton_append, ← after, List.take_append_drop]
      split at read
      · exact shorter read
      split at read
      · cases read
      · obtain ⟨-, rfl⟩ := Prod.mk.inj (Option.some.inj read)
        exact ⟨_, (List.take_append_drop _ _).symm, plain⟩

/-- What a reference takes holds no opening bracket. -/
theorem reference_used (inAttribute : Bool) (cs : List Char) :
    ∃ used, cs = used ++ (reference inAttribute cs).2 ∧ '<' ∉ used := by
  have marked : ∀ {front rest' text : List Char}, '<' ∉ front →
      (∃ used, text = used ++ rest' ∧ '<' ∉ used) → ∃ used, front ++ text = used ++ rest' ∧ '<' ∉ used := by
    rintro front rest' text clear ⟨used, rfl, plain⟩
    exact ⟨front ++ used, (List.append_assoc _ _ _).symm, by simp [clear, plain]⟩
  rw [reference_eq]
  cases found : namedOrNumbered? inAttribute cs with
  | none => exact ⟨[], rfl, List.not_mem_nil⟩
  | some read =>
    obtain ⟨chars, rest⟩ := read
    rw [Option.getD_some]
    fun_cases namedOrNumbered? inAttribute cs with
    | case1 text =>
      exact @marked ['#', 'x'] rest text (by decide) (numberReference?_used (by decide) found)
    | case2 text =>
      exact @marked ['#', 'X'] rest text (by decide) (numberReference?_used (by decide) found)
    | case3 text noSmall noCapital =>
      have read : numberReference? Char.isDigit Text.decimalNumber text = some (chars, rest) := by
        simpa [namedOrNumbered?] using found
      exact @marked ['#'] rest text (by decide) (numberReference?_used (by decide) read)
    | case4 cs noSmall noCapital noDecimal =>
      have read : nameReference? inAttribute cs ((cs.take maxNameLength).takeWhile Char.isAlphanum).length =
          some (chars, rest) := by
        simpa [namedOrNumbered?] using found
      refine nameReference?_used (fun member => ?_) read
      -- The name is made of letters and digits.
      have name : cs.take ((cs.take maxNameLength).takeWhile Char.isAlphanum).length =
          (cs.take maxNameLength).takeWhile Char.isAlphanum :=
        (List.prefix_iff_eq_take.mp ((List.takeWhile_prefix _).trans (List.take_prefix _ _))).symm
      rw [name] at member
      exact absurd (List.mem_takeWhile_imp member) (by decide)

/-! ## Values -/

/-- Whether a character closes a value. -/
def isQuote (c : Char) : Bool := c == '\x22'

/-- What a value between double quotes stands for. -/
def valueOf (raw : List Char) : List Char := (attributeValue isQuote (raw.length + 1) raw).1

theorem reference_suffix (inAttribute : Bool) (cs : List Char) : (reference inAttribute cs).2 <:+ cs := by
  obtain ⟨used, whole, -⟩ := reference_used inAttribute cs
  exact ⟨used, whole.symm⟩

/-- What the first character of a value stands for, together with what it takes of the text after it. -/
def firstOf (c : Char) (rest : List Char) : List Char × List Char :=
  if c == '&' then reference true rest else ([if c.toNat == 0 then '\ufffd' else c], rest)

theorem attributeValue_cons (goesOn : isQuote c = false) (fuel : Nat) (rest : List Char) :
    attributeValue isQuote (fuel + 1) (c :: rest) =
      ((firstOf c rest).1 ++ (attributeValue isQuote fuel (firstOf c rest).2).1,
        (attributeValue isQuote fuel (firstOf c rest).2).2) := by
  rw [attributeValue, goesOn]
  rfl

theorem firstOf_before (c : Char) (cs rest : List Char) :
    firstOf c (cs ++ '\x22' :: rest) = ((firstOf c cs).1, (firstOf c cs).2 ++ '\x22' :: rest) := by
  unfold firstOf
  split
  · exact reference_before true cs rest
  · rfl

theorem firstOf_suffix (c : Char) (cs : List Char) : (firstOf c cs).2 <:+ cs := by
  unfold firstOf
  split
  · exact reference_suffix true cs
  · exact List.suffix_rfl

/-- A value is read up to its quote, and alone it is read the same way. -/
theorem attributeValue_spec {raw : List Char} (plain : '\x22' ∉ raw) {fuel : Nat} (enough : raw.length < fuel) :
    attributeValue isQuote fuel raw = (valueOf raw, []) ∧
      ∀ rest, attributeValue isQuote fuel (raw ++ '\x22' :: rest) = (valueOf raw, '\x22' :: rest) := by
  induction h : raw.length using Nat.strongRecOn generalizing raw fuel with
  | ind length ih =>
    obtain ⟨fuel, rfl⟩ := Nat.exists_eq_add_one_of_ne_zero (Nat.ne_zero_of_lt enough)
    cases raw with
    | nil => exact ⟨rfl, fun _ => rfl⟩
    | cons c more =>
      obtain ⟨other, plain⟩ := not_or.mp (mt List.mem_cons.mpr plain)
      have goesOn : isQuote c = false := beq_eq_false_iff_ne.mpr (Ne.symm other)
      -- What is left is shorter, and with any fuel that is enough it is read alike.
      have suffix := firstOf_suffix c more
      have shorter : (firstOf c more).2.length < length := h ▸ Nat.lt_succ_of_le suffix.length_le
      have left : ∀ {fuel : Nat}, (firstOf c more).2.length < fuel → _ := fun enough =>
        ih _ shorter (fun member => plain (suffix.subset member)) enough rfl
      have value : valueOf (c :: more) = (firstOf c more).1 ++ valueOf (firstOf c more).2 := by
        rw [valueOf, List.length_cons, attributeValue_cons goesOn, (left (Nat.lt_succ_of_le suffix.length_le)).1]
      have enough' : (firstOf c more).2.length < fuel :=
        Nat.lt_of_le_of_lt suffix.length_le (Nat.lt_of_succ_lt_succ enough)
      refine ⟨?_, fun rest => ?_⟩
      · rw [attributeValue_cons goesOn, (left enough').1, value]
      · rw [List.cons_append, attributeValue_cons goesOn, firstOf_before, (left enough').2, value]

theorem valueOf_cons (plain : '\x22' ∉ c :: cs) : valueOf (c :: cs) = (firstOf c cs).1 ++ valueOf (firstOf c cs).2 := by
  obtain ⟨other, plain⟩ := not_or.mp (mt List.mem_cons.mpr plain)
  have suffix := firstOf_suffix c cs
  have rest := attributeValue_spec (fun member => plain (suffix.subset member)) (Nat.lt_succ_of_le suffix.length_le)
  rw [valueOf, List.length_cons, attributeValue_cons (beq_eq_false_iff_ne.mpr (Ne.symm other)), rest.1]

/-- Whether a character stands for itself in a value. -/
def isVerbatim (c : Char) : Bool := c != '\x22' && c != '&' && c != '\r' && c.toNat != 0

theorem valueOf_verbatim {front : List Char} (verbatim : ∀ d ∈ front, isVerbatim d = true) (plain : '\x22' ∉ cs) :
    valueOf (front ++ cs) = front ++ valueOf cs := by
  induction front with
  | nil => rfl
  | cons d rest ih =>
    obtain ⟨first, others⟩ := List.forall_mem_cons.mp verbatim
    have after : '\x22' ∉ d :: (rest ++ cs) := by
      intro member
      rw [← List.cons_append, List.mem_append] at member
      rcases member with inFront | later
      · exact absurd (verbatim _ inFront) (by decide)
      · exact plain later
    have itself : firstOf d (rest ++ cs) = ([d], rest ++ cs) := by
      simp only [isVerbatim, Bool.and_eq_true, bne_iff_ne] at first
      simp [firstOf, first]
    rw [List.cons_append, valueOf_cons after, itself, ih others]
    rfl

/-! ## References that are written for an ampersand and an apostrophe -/

theorem valueOf_ampersand (plain : '\x22' ∉ cs) : valueOf ("&amp;".toList ++ cs) = '&' :: valueOf cs := by
  have read : firstOf '&' ('a' :: 'm' :: 'p' :: ';' :: cs) = (['&'], cs) := by
    have name : (('a' :: 'm' :: 'p' :: ';' :: cs).take maxNameLength).takeWhile Char.isAlphanum = ['a', 'm', 'p'] := by
      simp [maxNameLength]
    have known : Text.named? ['a', 'm', 'p'] = some ⟨['&'], true⟩ := by decide
    simp [firstOf, reference_eq, namedOrNumbered?, name, nameReference?_succ, known]
  have after : '\x22' ∉ '&' :: 'a' :: 'm' :: 'p' :: ';' :: cs := by simpa using plain
  change valueOf ('&' :: 'a' :: 'm' :: 'p' :: ';' :: cs) = _
  rw [valueOf_cons after, read]
  rfl

theorem valueOf_apostrophe (plain : '\x22' ∉ cs) : valueOf ("&#x27;".toList ++ cs) = '\x27' :: valueOf cs := by
  have read : firstOf '&' ('#' :: 'x' :: '2' :: '7' :: ';' :: cs) = (['\x27'], cs) := by
    have digits : ('2' :: '7' :: ';' :: cs).takeWhile isHexDigit = ['2', '7'] := by
      simp [isHexDigit, Text.hexValue?]
    have number : charOfReference (Text.hexNumber ['2', '7']) = '\x27' := by decide
    simp [firstOf, reference_eq, namedOrNumbered?, numberReference?, digits, number]
  have after : '\x22' ∉ '&' :: '#' :: 'x' :: '2' :: '7' :: ';' :: cs := by simpa using plain
  change valueOf ('&' :: '#' :: 'x' :: '2' :: '7' :: ';' :: cs) = _
  rw [valueOf_cons after, read]
  rfl

end Galley.Html
