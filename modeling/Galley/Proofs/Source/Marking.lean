import Galley.Proofs.Source.Unmasking

/-!
# Marked texts

What happens to tokens while a text is taken apart and put together again. A cut that does not go through a
token leaves whole tokens on both sides, and then nothing can be read as a token that was none before.

* `Marking` — the sentinels and how many tokens there are;
* `Marking.Tokened` — a text in which every opening sentinel begins a whole token;
* `Marking.occurrences` — how often the token with a number stands in a text;
* `Marking.Derived` — a text made from another one with whole tokens;
* `Clear` — a text at whose start no token can be cut.
-/

namespace Galley.Source

/-- Whether a character is one of those that can be sentinels. -/
def isPrivateUse (c : Char) : Bool := 0xe000 ≤ c.toNat && c.toNat < 0xf900

/-- Whether a character can stand in a token. -/
def isTokenChar (c : Char) : Bool := c.isDigit || isPrivateUse c

/-- A text that does not begin with a character that can stand in a token. -/
def Clear (cs : List Char) : Prop := ∀ c ∈ cs.head?, isTokenChar c = false

/-- A character below those for private use that is no digit stands in no token. -/
theorem isTokenChar_of_toNat {c : Char} (notDigit : c.toNat < 48 ∨ 57 < c.toNat)
    (low : c.toNat < 0xe000) : isTokenChar c = false := by
  have other : c.isDigit = false := by
    rw [Bool.eq_false_iff]
    intro digit
    simp only [Char.isDigit, Bool.and_eq_true, decide_eq_true_eq, ge_iff_le, UInt32.le_iff_toNat_le] at digit
    change 48 ≤ c.toNat ∧ c.toNat ≤ 57 at digit
    omega
  simp only [isTokenChar, other, isPrivateUse, Bool.false_or, Bool.and_eq_false_iff,
    decide_eq_false_iff_not]
  omega

theorem clear_nil : Clear [] := fun _ member => by simp at member

theorem clear_cons {c : Char} {cs : List Char} (other : isTokenChar c = false) : Clear (c :: cs) :=
  fun d member => by
    obtain rfl : c = d := Option.some.inj member
    exact other

/-- A prefix of two texts lies in the first one, if all of its characters are of a kind that the second one
    does not begin with. -/
theorem prefix_left {p : Char → Bool} {t a b : List Char} (here : t <+: a ++ b)
    (all : ∀ c ∈ t, p c = true) (stops : ∀ c ∈ b.head?, p c = false) : t <+: a := by
  induction a generalizing t with
  | nil =>
    cases t with
    | nil => exact List.nil_prefix
    | cons d ds =>
      obtain ⟨tail, rfl⟩ := here
      have stop := stops d rfl
      rw [all d List.mem_cons_self] at stop
      cases stop
  | cons c cs ih =>
    cases t with
    | nil => exact List.nil_prefix
    | cons d ds =>
      rw [List.cons_append, List.cons_prefix_cons] at here
      obtain ⟨rfl, here⟩ := here
      rw [List.cons_prefix_cons]
      exact ⟨rfl, ih here fun c member => all c (List.mem_cons_of_mem _ member)⟩

/-- The sentinels of a text, and how many tokens there are. -/
structure Marking where
  /-- The character that begins a token. -/
  opening : Char
  /-- The character that ends a token. -/
  closing : Char
  /-- How many tokens there are. -/
  count : Nat
  /-- The first is a character for private use. -/
  openingPrivate : isPrivateUse opening = true
  /-- The second is a character for private use. -/
  closingPrivate : isPrivateUse closing = true
  /-- They differ. -/
  distinct : opening ≠ closing

namespace Marking

variable {m : Marking} {k : Nat} {a b cs : List Char}

/-- What follows the opening sentinel in the token with a number. -/
def body (m : Marking) (k : Nat) : List Char := Nat.toDigits 10 k ++ [m.closing]

/-- Every opening sentinel of a text begins a whole token. -/
def Tokened (m : Marking) : List Char → Prop
  | [] => True
  | c :: rest => (c = m.opening → ∃ k, k < m.count ∧ m.body k <+: rest) ∧ Tokened m rest

/-- How often the token with a number stands in a text. -/
def occurrences (m : Marking) (k : Nat) : List Char → Nat
  | [] => 0
  | c :: rest => (if c = m.opening ∧ m.body k <+: rest then 1 else 0) + occurrences m k rest

/-! ## Characters -/

theorem isDigit_of_mem_toDigits {c : Char} (member : c ∈ Nat.toDigits 10 k) : c.isDigit = true :=
  Nat.isDigit_of_mem_toDigits (by decide) (by decide) member

theorem not_isDigit_of_isPrivateUse {c : Char} (isPrivate : isPrivateUse c = true) :
    c.isDigit = false := by
  simp only [isPrivateUse, Bool.and_eq_true, decide_eq_true_eq] at isPrivate
  exact not_isDigit_of_private isPrivate.1

theorem isTokenChar_of_mem_body {c : Char} (member : c ∈ m.body k) : isTokenChar c = true := by
  rcases List.mem_append.mp member with digit | last
  · simp [isTokenChar, isDigit_of_mem_toDigits digit]
  · rw [List.mem_singleton.mp last]
    simp [isTokenChar, m.closingPrivate]

theorem opening_not_mem_body : m.opening ∉ m.body k := by
  intro member
  rcases List.mem_append.mp member with digit | last
  · have isDigit := isDigit_of_mem_toDigits digit
    rw [not_isDigit_of_isPrivateUse m.openingPrivate] at isDigit
    cases isDigit
  · exact m.distinct (List.mem_singleton.mp last)

theorem opening_ne {c : Char} (other : isTokenChar c = false) : c ≠ m.opening := by
  rintro rfl
  simp [isTokenChar, m.openingPrivate] at other

/-- A text in which no character can stand in a token does not hold the opening sentinel. -/
theorem opening_not_mem (others : ∀ c ∈ cs, isPrivateUse c = false) : m.opening ∉ cs := fun member => by
  have other := others _ member
  rw [m.openingPrivate] at other
  cases other

/-! ## Whole tokens -/

theorem tokened_of_not_mem (fresh : m.opening ∉ cs) : m.Tokened cs := by
  induction cs with
  | nil => trivial
  | cons c rest ih =>
    obtain ⟨other, fresh⟩ := not_or.mp (mt List.mem_cons.mpr fresh)
    exact ⟨fun same => absurd same.symm other, ih fresh⟩

theorem Tokened.append (left : m.Tokened a) (right : m.Tokened b) : m.Tokened (a ++ b) := by
  induction a with
  | nil => exact right
  | cons c rest ih =>
    refine ⟨fun same => ?_, ih left.2⟩
    obtain ⟨k, known, here⟩ := left.1 same
    exact ⟨k, known, here.trans (List.prefix_append _ _)⟩

theorem Tokened.right (whole : m.Tokened (a ++ b)) : m.Tokened b := by
  induction a with
  | nil => exact whole
  | cons c rest ih => exact ih whole.2

/-- A cut in front of a clear text goes through no token. -/
theorem Tokened.left (whole : m.Tokened (a ++ b)) (clear : Clear b) : m.Tokened a := by
  induction a with
  | nil => trivial
  | cons c rest ih =>
    refine ⟨fun same => ?_, ih whole.2⟩
    obtain ⟨k, known, here⟩ := whole.1 same
    exact ⟨k, known, prefix_left here (fun _ => isTokenChar_of_mem_body) clear⟩

/-- A cut behind a character that can stand in no token goes through no token. -/
theorem Tokened.left_of_last {c : Char} (whole : m.Tokened (a ++ c :: b))
    (other : isTokenChar c = false) : m.Tokened (a ++ [c]) :=
  (whole.left (clear_cons other)).append (tokened_of_not_mem fun member =>
    opening_ne other (List.mem_singleton.mp member).symm)

theorem Tokened.cons {c : Char} (rest : m.Tokened cs) (other : c ≠ m.opening) : m.Tokened (c :: cs) :=
  ⟨fun same => absurd same other, rest⟩

/-! ## Occurrences -/

theorem occurrences_of_not_mem (fresh : m.opening ∉ cs) : m.occurrences k cs = 0 := by
  induction cs with
  | nil => rfl
  | cons c rest ih =>
    obtain ⟨other, fresh⟩ := not_or.mp (mt List.mem_cons.mpr fresh)
    rw [occurrences, ih fresh, if_neg fun both => other both.1.symm]

/-- A sentinel in a text with whole tokens is the start of one of them. -/
theorem exists_occurrences_pos (whole : m.Tokened cs) (member : m.opening ∈ cs) :
    ∃ k, 0 < m.occurrences k cs := by
  induction cs with
  | nil => cases member
  | cons c rest ih =>
    by_cases here : c = m.opening
    · obtain ⟨k, -, prefixed⟩ := whole.1 here
      refine ⟨k, ?_⟩
      rw [occurrences, if_pos ⟨here, prefixed⟩]
      omega
    · obtain ⟨k, some⟩ := ih whole.2 ((List.mem_cons.mp member).resolve_left (Ne.symm here))
      exact ⟨k, Nat.lt_of_lt_of_le some (Nat.le_add_left _ _)⟩

/-- Parts of a text hold no more tokens than the text does. -/
theorem occurrences_append_le (a b : List Char) :
    m.occurrences k a + m.occurrences k b ≤ m.occurrences k (a ++ b) := by
  induction a with
  | nil => simp [occurrences]
  | cons c rest ih =>
    simp only [List.cons_append, occurrences]
    by_cases here : c = m.opening ∧ m.body k <+: rest
    · have stays : c = m.opening ∧ m.body k <+: rest ++ b :=
        ⟨here.1, here.2.trans (List.prefix_append _ _)⟩
      rw [if_pos here, if_pos stays]
      omega
    · rw [if_neg here]
      omega

theorem body_injective {j k : Nat} (same : m.body j = m.body k) : j = k := by
  have digits := List.append_cancel_right same
  rw [← Nat.ofDigitChars_ten_toDigits (n := j), digits, Nat.ofDigitChars_ten_toDigits]

/-- A text does not go on with two tokens at once. -/
theorem eq_of_bodies {j k : Nat} (first : m.body j <+: cs) (second : m.body k <+: cs) : j = k := by
  obtain ⟨tail, rfl⟩ := first
  obtain ⟨tail', same⟩ := second
  simp only [body, List.append_assoc, List.singleton_append] at same
  have notDigit := not_isDigit_of_isPrivateUse m.closingPrivate
  have digits := congrArg (List.takeWhile Char.isDigit) same
  rw [takeWhile_digits notDigit, takeWhile_digits notDigit] at digits
  rw [← Nat.ofDigitChars_ten_toDigits (n := j), ← digits, Nat.ofDigitChars_ten_toDigits]

/-- Behind whole tokens nothing new can become a token. -/
theorem occurrences_append (left : m.Tokened a) (b : List Char) :
    m.occurrences k (a ++ b) = m.occurrences k a + m.occurrences k b := by
  induction a with
  | nil => simp [occurrences]
  | cons c rest ih =>
    simp only [List.cons_append, occurrences]
    have same : (c = m.opening ∧ m.body k <+: rest ++ b) ↔ (c = m.opening ∧ m.body k <+: rest) := by
      refine and_congr_right fun opens => ⟨fun here => ?_, fun here => here.trans (List.prefix_append _ _)⟩
      obtain ⟨j, _, whole⟩ := left.1 opens
      rw [eq_of_bodies here (whole.trans (List.prefix_append _ _))]
      exact whole
    rw [ih left.2]
    simp only [same]
    omega

theorem occurrences_right_le (a b : List Char) : m.occurrences k b ≤ m.occurrences k (a ++ b) := by
  have := m.occurrences_append_le (k := k) a b
  omega

theorem occurrences_left_le (a b : List Char) : m.occurrences k a ≤ m.occurrences k (a ++ b) := by
  have := m.occurrences_append_le (k := k) a b
  omega

/-- A text up to a character that can stand in no token has whole tokens. -/
theorem Tokened.takeWhile {p : Char → Bool} (whole : m.Tokened cs)
    (stops : ∀ c, p c = false → isTokenChar c = false) : m.Tokened (cs.takeWhile p) := by
  rw [← List.takeWhile_append_dropWhile (p := p) (l := cs)] at whole
  refine whole.left fun c member => ?_
  have stop := List.head?_dropWhile_not p cs
  rw [member] at stop
  exact stops c (by simpa using stop)

theorem occurrences_takeWhile_le (p : Char → Bool) (cs : List Char) :
    m.occurrences k (cs.takeWhile p) ≤ m.occurrences k cs := by
  conv => rhs; rw [← List.takeWhile_append_dropWhile (p := p) (l := cs)]
  exact m.occurrences_left_le _ _

/-! ## Derived texts -/

/-- A text that is made from another one by leaving characters out and putting others in, none of them an
    opening sentinel, so that behind every sentinel that is kept the token stays whole. -/
inductive Derived (m : Marking) : List Char → List Char → Prop where
  /-- The rest is left out. -/
  | done (cs : List Char) : Derived m [] cs
  /-- A character is kept. -/
  | keep {c : Char} {out cs : List Char}
      (whole : c = m.opening → ∀ k, m.body k <+: cs → m.body k <+: out) (rest : Derived m out cs) :
      Derived m (c :: out) (c :: cs)
  /-- A character is left out. -/
  | skip {c : Char} {out cs : List Char} (rest : Derived m out cs) : Derived m out (c :: cs)
  /-- A character is put in. -/
  | insert {c : Char} {out cs : List Char} (other : c ≠ m.opening) (rest : Derived m out cs) :
      Derived m (c :: out) cs

theorem Derived.tokened {out : List Char} (derived : m.Derived out cs) (whole : m.Tokened cs) :
    m.Tokened out := by
  induction derived with
  | done => trivial
  | keep stays _ ih =>
    refine ⟨fun same => ?_, ih whole.2⟩
    obtain ⟨k, known, here⟩ := whole.1 same
    exact ⟨k, known, stays same k here⟩
  | skip _ ih => exact ih whole.2
  | insert other _ ih => exact (ih whole).cons other

/-- A derived text holds no token more often than the text that it is made from. -/
theorem Derived.occurrences_le {out : List Char} (derived : m.Derived out cs) (whole : m.Tokened cs) :
    m.occurrences k out ≤ m.occurrences k cs := by
  induction derived with
  | done => simp [occurrences]
  | @keep c out cs stays _ ih =>
    have rest := ih whole.2
    simp only [occurrences]
    by_cases here : c = m.opening ∧ m.body k <+: out
    · obtain ⟨j, _, there⟩ := whole.1 here.1
      obtain rfl := eq_of_bodies here.2 (stays here.1 j there)
      rw [if_pos here, if_pos ⟨here.1, there⟩]
      omega
    · rw [if_neg here]
      omega
  | skip _ ih =>
    have rest := ih whole.2
    simp only [occurrences]
    omega
  | insert other _ ih =>
    rw [occurrences, if_neg fun both => other both.1]
    have rest := ih whole
    omega

/-- A derived text has no sentinel that the other one has not. -/
theorem Derived.opening_not_mem {out : List Char} (derived : m.Derived out cs) (silent : m.opening ∉ cs) :
    m.opening ∉ out := by
  induction derived with
  | done => exact List.not_mem_nil
  | keep _ _ ih =>
    obtain ⟨other, rest⟩ := not_or.mp (mt List.mem_cons.mpr silent)
    exact fun member => (List.mem_cons.mp member).elim other (ih rest)
  | skip _ ih => exact ih (mt (List.mem_cons_of_mem _) silent)
  | insert other _ ih => exact fun member => (List.mem_cons.mp member).elim (Ne.symm other) (ih silent)

theorem Derived.insertAll {inserted out : List Char} (fresh : m.opening ∉ inserted)
    (rest : m.Derived out cs) : m.Derived (inserted ++ out) cs := by
  induction inserted with
  | nil => exact rest
  | cons c cs ih =>
    obtain ⟨other, fresh⟩ := not_or.mp (mt List.mem_cons.mpr fresh)
    exact .insert (Ne.symm other) (ih fresh)

theorem Derived.skipAll {skipped out : List Char} (rest : m.Derived out cs) :
    m.Derived out (skipped ++ cs) := by
  induction skipped with
  | nil => exact rest
  | cons c cs ih => exact .skip ih

theorem Derived.keepAll (cs : List Char) : m.Derived cs cs := by
  induction cs with
  | nil => exact .done []
  | cons c cs ih => exact .keep (fun _ _ here => here) ih

end Marking
end Galley.Source
