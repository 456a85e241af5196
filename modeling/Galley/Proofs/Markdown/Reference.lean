import Galley.Markdown.Link
import Galley.Proofs.Source.Marking

/-!
# References in marked texts

A character reference is read from the characters that it is written with and from nothing after them.

* `reference?_spec` — what a reference takes from its text;
* `Unforged` — a text in which no reference stands for the opening sentinel.
-/

namespace Galley.Markdown

open Galley.Source (Marking isPrivateUse isTokenChar)

/-- Whether a character can stand in a reference, after the ampersand. -/
def isReferenceChar (c : Char) : Bool := c.isAlphanum || c == '#' || c == ';'

theorem takeWhile_stops {p : Char → Bool} {digits tail : List Char} {c : Char}
    (all : ∀ d ∈ digits, p d = true) (stops : p c = false) (most : Nat) (fits : digits.length ≤ most) :
    ((digits ++ c :: tail).take most).takeWhile p = digits := by
  rw [List.take_append, List.take_of_length_le fits, List.takeWhile_append_of_pos all]
  cases most - digits.length with
  | zero => simp
  | succ more => rw [List.take_succ_cons, List.takeWhile_cons_of_neg (by simp [stops]), List.append_nil]

theorem numberedReference?_spec {isDigit : Char → Bool} {value : List Char → Nat} {most : Nat}
    {cs chars after : List Char} (stops : isDigit ';' = false)
    (read : numberedReference? isDigit value most cs = some (chars, after)) :
    ∃ digits, cs = digits ++ ';' :: after ∧ digits ≠ [] ∧ (∀ d ∈ digits, isDigit d = true) ∧
      ∀ tail, numberedReference? isDigit value most (digits ++ ';' :: tail) = some (chars, tail) := by
  unfold numberedReference? at read
  simp only at read
  generalize written : (cs.take most).takeWhile isDigit = digits at read
  have isPrefix : digits <+: cs :=
    written ▸ (List.takeWhile_prefix _).trans (List.take_prefix _ _)
  have all : ∀ d ∈ digits, isDigit d = true := written ▸ List.all_eq_true.mp List.all_takeWhile
  have fits : digits.length ≤ most := by
    rw [← written]
    exact Nat.le_trans (List.takeWhile_prefix _).length_le (List.length_take_le _ _)
  obtain ⟨back, rfl⟩ := isPrefix
  rw [List.drop_left] at read
  split at read
  next d ds rest =>
    obtain ⟨rfl, rfl⟩ := Prod.mk.inj (Option.some.inj read)
    refine ⟨d :: ds, rfl, by simp, all, fun tail => ?_⟩
    unfold numberedReference?
    simp only [takeWhile_stops all stops most fits, List.drop_left]
  next => cases read

theorem named?_spec {cs chars after : List Char}
    (read : (match cs.drop (cs.takeWhile Char.isAlphanum).length with
      | ';' :: rest =>
        (Text.named? (cs.takeWhile Char.isAlphanum)).map fun found => (found.chars, rest)
      | _ => none) = some (chars, after)) :
    ∃ name, cs = name ++ ';' :: after ∧ (∀ c ∈ name, c.isAlphanum = true) ∧
      (Text.named? name).map (·.chars) = some chars := by
  have all := List.all_eq_true.mp (List.all_takeWhile (p := Char.isAlphanum) (l := cs))
  obtain ⟨back, whole⟩ := List.takeWhile_prefix (l := cs) Char.isAlphanum
  generalize cs.takeWhile Char.isAlphanum = name at *
  subst whole
  rw [List.drop_left] at read
  split at read
  next rest =>
    obtain ⟨found, known, same⟩ := Option.map_eq_some_iff.mp read
    obtain ⟨rfl, rfl⟩ := Prod.mk.inj same
    exact ⟨name, rfl, all, by rw [known]; rfl⟩
  next => cases read

theorem isReferenceChar_of_isAlphanum {c : Char} (isAlphanum : c.isAlphanum = true) :
    isReferenceChar c = true := by
  simp [isReferenceChar, isAlphanum]

theorem isAlphanum_of_hexValue? {c : Char} (isHex : (Text.hexValue? c).isSome = true) :
    c.isAlphanum = true := by
  unfold Text.hexValue? at isHex
  simp only [Char.isAlphanum, Char.isAlpha, Char.isUpper, Char.isLower, Char.isDigit,
    Bool.or_eq_true, Bool.and_eq_true, decide_eq_true_eq]
  split at isHex
  next range =>
    simp only [Bool.and_eq_true, decide_eq_true_eq, Char.le_def] at range
    exact Or.inr range
  split at isHex
  next range =>
    simp only [Bool.and_eq_true, decide_eq_true_eq, Char.le_def] at range
    exact Or.inl (Or.inr ⟨range.1, UInt32.le_trans range.2 (by decide)⟩)
  split at isHex
  next range =>
    simp only [Bool.and_eq_true, decide_eq_true_eq, Char.le_def] at range
    exact Or.inl (Or.inl ⟨range.1, UInt32.le_trans range.2 (by decide)⟩)
  next => cases isHex

/-- A reference is written in characters of references, and nothing that follows it matters. -/
theorem reference?_spec {cs chars after : List Char} (read : reference? cs = some (chars, after)) :
    ∃ t, cs = t ++ after ∧ (∀ c ∈ t, isReferenceChar c = true) ∧
      ∀ tail, reference? (t ++ tail) = some (chars, tail) := by
  have numeric : ∀ {isDigit : Char → Bool} {value : List Char → Nat} {most : Nat} {rest : List Char}
      (mark : List Char), (∀ c ∈ mark, isReferenceChar c = true) →
      (∀ c, isDigit c = true → c.isAlphanum = true) → isDigit ';' = false →
      (∀ digits, digits ≠ [] → (∀ d ∈ digits, isDigit d = true) →
        ∀ tail, reference? (mark ++ digits ++ tail) =
          numberedReference? isDigit value most (digits ++ tail)) →
      numberedReference? isDigit value most rest = some (chars, after) →
      ∃ t, mark ++ rest = t ++ after ∧ (∀ c ∈ t, isReferenceChar c = true) ∧
        ∀ tail, reference? (t ++ tail) = some (chars, tail) := by
    intro isDigit value most rest mark marks digitChars stops reads numbered
    obtain ⟨digits, rfl, some, all, again⟩ := numberedReference?_spec stops numbered
    refine ⟨mark ++ digits ++ [';'], by simp, fun c member => ?_, fun tail => ?_⟩
    · simp only [List.mem_append, List.mem_singleton] at member
      rcases member with (inMark | digit) | rfl
      · exact marks c inMark
      · exact isReferenceChar_of_isAlphanum (digitChars c (all c digit))
      · rfl
    · rw [List.append_assoc (mark ++ digits), reads digits some all, List.singleton_append, again]
  unfold reference? at read
  simp only at read
  split at read
  next rest =>
    refine numeric ['#', 'x'] (List.all_eq_true.mp (by decide)) (fun c => isAlphanum_of_hexValue?) (by decide) ?_ read
    exact fun _ _ _ _ => rfl
  next rest =>
    refine numeric ['#', 'X'] (List.all_eq_true.mp (by decide)) (fun c => isAlphanum_of_hexValue?) (by decide) ?_ read
    exact fun _ _ _ _ => rfl
  next rest notSmall notCapital =>
    refine numeric ['#'] (List.all_eq_true.mp (by decide)) (fun c isDigit => by simp [Char.isAlphanum, isDigit])
      (by decide) ?_ read
    intro digits some all tail
    cases digits with
    | nil => exact absurd rfl some
    | cons d ds =>
      have isDigit := all d List.mem_cons_self
      simp only [List.cons_append, List.nil_append]
      unfold reference?
      split
      next same =>
        rw [(List.cons.inj (List.cons.inj same).2).1] at isDigit
        exact absurd isDigit (by decide)
      next same =>
        rw [(List.cons.inj (List.cons.inj same).2).1] at isDigit
        exact absurd isDigit (by decide)
      next same =>
        rw [← (List.cons.inj same).2]
      next other => exact absurd rfl (other _)
  next notSmall notCapital notNumber =>
    obtain ⟨name, rfl, all, known⟩ := named?_spec read
    refine ⟨name ++ [';'], by simp, fun c member => ?_, fun tail => ?_⟩
    · simp only [List.mem_append, List.mem_singleton] at member
      rcases member with letter | rfl
      · exact isReferenceChar_of_isAlphanum (all c letter)
      · rfl
    · have notMark : ∀ rest, name ++ [';'] ++ tail ≠ '#' :: rest := by
        intro rest same
        cases name with
        | nil => simp at same
        | cons c cs =>
          simp only [List.cons_append, List.cons.injEq] at same
          have letter := all c List.mem_cons_self
          rw [same.1] at letter
          exact absurd letter (by decide)
      unfold reference?
      split
      next same => exact absurd same (notMark _)
      next same => exact absurd same (notMark _)
      next same => exact absurd same (notMark _)
      next =>
        have stops : (name ++ ';' :: tail).takeWhile Char.isAlphanum = name := by
          rw [List.takeWhile_append_of_pos all, List.takeWhile_cons_of_neg (by decide), List.append_nil]
        obtain ⟨found, same, rfl⟩ := Option.map_eq_some_iff.mp known
        simp only [List.append_assoc, List.singleton_append, stops, List.drop_left, same, Option.map_some]

/-! ## Texts without forged tokens -/

/-- No reference of a text stands for a sentinel. -/
def Unforged (sentinel : Char) : List Char → Prop
  | [] => True
  | c :: rest =>
    (c = '&' → ∀ chars after, reference? rest = some (chars, after) → sentinel ∉ chars) ∧
      Unforged sentinel rest

/-- Whether a reference stands for a sentinel can be found out by reading all of them. -/
instance decidableUnforged (sentinel : Char) : (cs : List Char) → Decidable (Unforged sentinel cs)
  | [] => isTrue trivial
  | _ :: rest =>
    have : Decidable (∀ chars after, reference? rest = some (chars, after) → sentinel ∉ chars) :=
      decidable_of_iff (∀ read ∈ reference? rest, sentinel ∉ read.1)
        ⟨fun all chars after read => all (chars, after) read, fun all read => all read.1 read.2⟩
    have := decidableUnforged sentinel rest
    inferInstanceAs (Decidable (_ ∧ _))

variable {m : Marking} {sentinel : Char} {a b cs : List Char}

/-- The same, by the places of the ampersands. -/
theorem unforged_iff : Unforged sentinel cs ↔
    ∀ front rest, cs = front ++ '&' :: rest → ∀ read ∈ reference? rest, sentinel ∉ read.1 := by
  induction cs with
  | nil => simp [Unforged]
  | cons c cs ih =>
    rw [Unforged, ih]
    constructor
    · rintro ⟨here, later⟩ front rest split
      cases front with
      | nil =>
        obtain ⟨rfl, rfl⟩ := List.cons.inj split
        exact fun read => here rfl read.1 read.2
      | cons d front => exact later front rest (List.cons.inj split).2
    · refine fun all => ⟨fun same chars after read => ?_, fun front rest split => ?_⟩
      · exact all [] cs (by rw [same]; rfl) (chars, after) read
      · exact all (c :: front) rest (by rw [split]; rfl)

theorem Unforged.right (whole : Unforged sentinel (a ++ b)) : Unforged sentinel b := by
  induction a with
  | nil => exact whole
  | cons c rest ih => exact ih whole.2

theorem Unforged.left (whole : Unforged sentinel (a ++ b)) : Unforged sentinel a := by
  induction a with
  | nil => trivial
  | cons c rest ih =>
    refine ⟨fun same chars after read => ?_, ih whole.2⟩
    obtain ⟨t, rfl, -, again⟩ := reference?_spec read
    refine whole.1 same chars (after ++ b) ?_
    have further := again (after ++ b)
    rw [← List.append_assoc] at further
    exact further

/-- Two texts make no new reference, if the second one does not begin with a character of references. -/
theorem Unforged.append (left : Unforged sentinel a) (right : Unforged sentinel b)
    (stops : ∀ c ∈ b.head?, isReferenceChar c = false) : Unforged sentinel (a ++ b) := by
  induction a with
  | nil => exact right
  | cons c rest ih =>
    refine ⟨fun same chars after read => ?_, ih left.2⟩
    obtain ⟨t, whole, all, again⟩ := reference?_spec read
    obtain ⟨tail, rfl⟩ := Source.prefix_left (whole ▸ List.prefix_append t after) all stops
    exact left.1 same chars tail (again tail)

/-- A text whose tokens are whole, and in which no reference forges one. -/
structure Genuine (m : Marking) (cs : List Char) : Prop where
  /-- Every opening sentinel begins a token. -/
  tokened : m.Tokened cs
  /-- No reference stands for one. -/
  unforged : Unforged m.opening cs

theorem Genuine.right (whole : Genuine m (a ++ b)) : Genuine m b :=
  ⟨whole.tokened.right, whole.unforged.right⟩

theorem Genuine.left (whole : Genuine m (a ++ b)) (clear : Source.Clear b) : Genuine m a :=
  ⟨whole.tokened.left clear, whole.unforged.left⟩

theorem genuine_nil : Genuine m [] := ⟨trivial, trivial⟩

/-! ## Texts without backslashes and references -/

theorem ne_of_isTokenChar {c d : Char} (inToken : isTokenChar c = true)
    (other : isTokenChar d = false) : (c == d) = false := by
  refine beq_false_of_ne ?_
  rintro rfl
  rw [inToken] at other
  cases other

/-- Characters of tokens stay at the start of a text. -/
theorem prefix_unescapeChars (fuel : Nat) {t : List Char} (all : ∀ c ∈ t, isTokenChar c = true)
    (here : t <+: cs) : t <+: unescapeChars fuel cs := by
  induction fuel generalizing t cs with
  | zero => exact here
  | succ fuel ih =>
    cases t with
    | nil => exact List.nil_prefix
    | cons d ds =>
      cases cs with
      | nil => simp at here
      | cons c rest =>
        obtain ⟨rfl, inside⟩ := List.cons_prefix_cons.mp here
        have inToken := all d List.mem_cons_self
        rw [unescapeChars.eq_def]
        simp only [ne_of_isTokenChar inToken (show isTokenChar '\\' = false by decide),
          ne_of_isTokenChar inToken (show isTokenChar '&' = false by decide),
          ne_of_isTokenChar inToken (show isTokenChar '\r' = false by decide), Bool.false_eq_true,
          if_false]
        exact List.cons_prefix_cons.mpr
          ⟨rfl, ih (fun c member => all c (List.mem_cons_of_mem _ member)) inside⟩

theorem isTokenChar_of_isAsciiPunctuation {c : Char} (punctuation : Text.isAsciiPunctuation c = true) :
    isTokenChar c = false := by
  simp only [Text.isAsciiPunctuation, Bool.or_eq_true, Bool.and_eq_true, decide_eq_true_eq] at punctuation
  exact Source.isTokenChar_of_toNat (by omega) (by omega)

theorem derived_unescapeChars (fuel : Nat) (unforged : Unforged m.opening cs) :
    m.Derived (unescapeChars fuel cs) cs := by
  induction fuel generalizing cs with
  | zero => exact .keepAll cs
  | succ fuel ih =>
    cases cs with
    | nil => exact .done []
    | cons c rest =>
      have kept : m.Derived (c :: unescapeChars fuel rest) (c :: rest) :=
        .keep (fun _ _ => prefix_unescapeChars fuel fun _ => Marking.isTokenChar_of_mem_body)
          (ih unforged.2)
      rw [unescapeChars.eq_def]
      simp only
      split
      next backslash =>
        split
        next d rest =>
          split
          next punctuation =>
            exact .skip (.keep (fun same => absurd same
              (Marking.opening_ne (isTokenChar_of_isAsciiPunctuation punctuation))) (ih unforged.2.2))
          next => exact kept
        next => exact .keepAll _
      next =>
      split
      next ampersand =>
        split
        next chars after read =>
          have fresh := unforged.1 (beq_iff_eq.mp ampersand) chars after read
          obtain ⟨t, rfl, -, -⟩ := reference?_spec read
          exact .insertAll fresh (.skip (.skipAll (ih unforged.2.right)))
        next => exact kept
      next =>
      split
      next => exact .skip (ih unforged.2)
      next => exact kept

/-- A text without its backslashes and references is derived from the text, if no reference forges a
    token. -/
theorem derived_unescape (unforged : Unforged m.opening cs) : m.Derived (unescape cs) cs :=
  derived_unescapeChars cs.length unforged

end Galley.Markdown
