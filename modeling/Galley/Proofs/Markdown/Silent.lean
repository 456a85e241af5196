import Galley.Markdown.Writer
import Galley.Proofs.Source.Marking

/-!
# Texts without sentinels

Markup consists of fixed parts, of numbers and of escaped texts. Only the last can hold a sentinel, and only
if the text does.

* `Silent` — a text without the opening sentinel;
* `Bears` — a text with whole tokens, and how many there are at most;
* `silent_of_plain`, `silent_toString` — fixed parts and numbers;
* `Escapes.derived` — a text that is escaped character by character keeps its tokens;
* `silent_escapeAddress` — an address holds none.
-/

namespace Galley.Source

variable {m : Marking} {k : Nat} {a b : String} {cs : List Char}

/-- A text does not hold the opening sentinel. -/
def Silent (m : Marking) (text : String) : Prop := m.opening ∉ text.toList

/-- A fixed text without characters for private use. -/
theorem silent_of_plain (plain : a.toList.all (fun c => !isPrivateUse c) = true) : Silent m a :=
  Marking.opening_not_mem fun c member => by simpa using List.all_eq_true.mp plain c member

theorem silent_empty : Silent m "" := List.not_mem_nil

theorem Silent.append (left : Silent m a) (right : Silent m b) : Silent m (a ++ b) := by
  rw [Silent, String.toList_append, List.mem_append, not_or]
  exact ⟨left, right⟩

theorem silent_toString (n : Nat) : Silent m (toString n) := by
  refine Marking.opening_not_mem fun c member => ?_
  change c ∈ (Nat.repr n).toList at member
  rw [Nat.toList_repr] at member
  rw [Bool.eq_false_iff]
  intro isPrivate
  have digit := Marking.isDigit_of_mem_toDigits member
  rw [Marking.not_isDigit_of_isPrivateUse isPrivate] at digit
  cases digit

theorem Silent.tokened (silent : Silent m a) : m.Tokened a.toList := Marking.tokened_of_not_mem silent

/-- A text has whole tokens, each at most as often as `n` says. -/
structure Bears (m : Marking) (n : Nat → Nat) (text : String) : Prop where
  /-- The tokens are whole. -/
  tokened : m.Tokened text.toList
  /-- There are no more of them. -/
  most : ∀ k, m.occurrences k text.toList ≤ n k

namespace Bears

variable {n p : Nat → Nat}

theorem own (tokened : m.Tokened a.toList) : Bears m (fun k => m.occurrences k a.toList) a :=
  ⟨tokened, fun _ => Nat.le_refl _⟩

theorem mono (bears : Bears m n a) (le : ∀ k, n k ≤ p k) : Bears m p a :=
  ⟨bears.tokened, fun k => Nat.le_trans (bears.most k) (le k)⟩

theorem of_silent (silent : Silent m a) : Bears m n a where
  tokened := silent.tokened
  most k := by
    rw [Marking.occurrences_of_not_mem silent]
    exact Nat.zero_le _

theorem append (left : Bears m n a) (right : Bears m p b) : Bears m (fun k => n k + p k) (a ++ b) where
  tokened := by
    rw [String.toList_append]
    exact left.tokened.append right.tokened
  most k := by
    rw [String.toList_append, Marking.occurrences_append left.tokened]
    exact Nat.add_le_add (left.most k) (right.most k)

theorem appendSilent (left : Bears m n a) (right : Silent m b) : Bears m n (a ++ b) :=
  left.append (p := fun _ => 0) (of_silent right)

theorem of_derived (bears : Bears m n a) (derived : m.Derived b.toList a.toList) : Bears m n b :=
  ⟨derived.tokened bears.tokened, fun k =>
    Nat.le_trans (derived.occurrences_le bears.tokened) (bears.most k)⟩

end Bears

theorem Silent.appendBears {n : Nat → Nat} (left : Silent m a) (right : Bears m n b) :
    Bears m n (a ++ b) :=
  ((Bears.of_silent (n := fun _ => 0) left).append right).mono fun _ => Nat.le_of_eq (Nat.zero_add _)

/-! ## Escapes -/

/-- How each character is written: those of tokens as they are, and no other one as a sentinel. -/
structure Escapes (m : Marking) (f : Char → List Char) : Prop where
  /-- Characters of tokens stand for themselves. -/
  plain : ∀ c, isTokenChar c = true → f c = [c]
  /-- Nothing else is written with a sentinel. -/
  fresh : ∀ c, isTokenChar c = false → m.opening ∉ f c

theorem Escapes.keeps {f : Char → List Char} (escapes : Escapes m f) {t : List Char}
    (all : ∀ c ∈ t, isTokenChar c = true) (here : t <+: cs) : t <+: cs.flatMap f := by
  obtain ⟨tail, rfl⟩ := here
  rw [List.flatMap_append]
  have same : t.flatMap f = t := by
    clear tail
    induction t with
    | nil => rfl
    | cons c rest ih =>
      rw [List.flatMap_cons, escapes.plain c (all c List.mem_cons_self),
        ih fun d member => all d (List.mem_cons_of_mem _ member)]
      rfl
  rw [same]
  exact List.prefix_append _ _

theorem Escapes.derived {f : Char → List Char} (escapes : Escapes m f) (cs : List Char) :
    m.Derived (cs.flatMap f) cs := by
  induction cs with
  | nil => exact .done []
  | cons c rest ih =>
    rw [List.flatMap_cons]
    cases kind : isTokenChar c with
    | true =>
      rw [escapes.plain c kind]
      exact .keep (fun _ _ => escapes.keeps fun _ => Marking.isTokenChar_of_mem_body) ih
    | false => exact .insertAll (escapes.fresh c kind) (.skip ih)

/-- A sentinel is written as it is. -/
theorem Escapes.mem {f : Char → List Char} (escapes : Escapes m f) (member : m.opening ∈ cs) :
    m.opening ∈ cs.flatMap f := by
  refine List.mem_flatMap.mpr ⟨m.opening, member, ?_⟩
  rw [escapes.plain _ (by simp [isTokenChar, m.openingPrivate])]
  exact List.mem_singleton.mpr rfl

theorem Escapes.silent {f : Char → List Char} (escapes : Escapes m f) (silent : m.opening ∉ cs) :
    m.opening ∉ cs.flatMap f := by
  rw [List.mem_flatMap]
  rintro ⟨c, member, written⟩
  cases kind : isTokenChar c with
  | true =>
    rw [escapes.plain c kind, List.mem_singleton] at written
    exact silent (written ▸ member)
  | false => exact escapes.fresh c kind written

theorem escapes_escapeTextChar : Escapes m Text.escapeTextChar where
  plain c inToken := by
    unfold Text.escapeTextChar
    rw [if_neg, if_neg, if_neg] <;> rintro rfl <;> exact absurd inToken (by decide)
  fresh c other := by
    unfold Text.escapeTextChar
    split
    · exact silent_of_plain (a := "&amp;") (by decide)
    split
    · exact silent_of_plain (a := "&lt;") (by decide)
    split
    · exact silent_of_plain (a := "&gt;") (by decide)
    · exact fun member => Marking.opening_ne other (List.mem_singleton.mp member).symm

theorem escapes_escapeAttributeChar : Escapes m Text.escapeAttributeChar where
  plain c inToken := by
    unfold Text.escapeAttributeChar
    rw [if_neg, escapes_escapeTextChar.plain (m := m) c inToken]
    rintro rfl
    exact absurd inToken (by decide)
  fresh c other := by
    unfold Text.escapeAttributeChar
    split
    · exact silent_of_plain (a := "&quot;") (by decide)
    · exact escapes_escapeTextChar.fresh c other

theorem silent_escapeText (silent : Silent m a) : Silent m (Text.escapeText a) := by
  rw [Silent, Text.escapeText, String.toList_ofList]
  exact escapes_escapeTextChar.silent silent

theorem silent_escapeAttribute (silent : Silent m a) : Silent m (Text.escapeAttribute a) := by
  rw [Silent, Text.escapeAttribute, String.toList_ofList]
  exact escapes_escapeAttributeChar.silent silent

theorem bears_escapeText {n : Nat → Nat} (bears : Bears m n a) : Bears m n (Text.escapeText a) := by
  refine bears.of_derived ?_
  rw [Text.escapeText, String.toList_ofList]
  exact escapes_escapeTextChar.derived _

theorem bears_escapeAttribute {n : Nat → Nat} (bears : Bears m n a) :
    Bears m n (Text.escapeAttribute a) := by
  refine bears.of_derived ?_
  rw [Text.escapeAttribute, String.toList_ofList]
  exact escapes_escapeAttributeChar.derived _

theorem isPrivateUse_addressByte (b : UInt8) :
    (Markdown.addressByte b).all (fun c => !isPrivateUse c) = true := by
  have all : ∀ n < 256,
      (Markdown.addressByte (UInt8.ofNat n)).all (fun c => !isPrivateUse c) = true := by
    decide +kernel
  have here := all b.toNat b.toNat_lt
  rw [UInt8.ofNat_toNat] at here
  exact here

/-- An address is written in ASCII. -/
theorem silent_escapeAddress (address : String) : Silent m (Markdown.escapeAddress address) := by
  rw [Silent, Markdown.escapeAddress, String.toList_ofList, List.mem_flatMap]
  rintro ⟨b, -, written⟩
  have plain := List.all_eq_true.mp (isPrivateUse_addressByte b) _ written
  rw [m.openingPrivate] at plain
  cases plain

end Galley.Source
