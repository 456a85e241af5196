import Galley.Proofs.Markdown.Line

/-!
# The parts of links in marked texts

Destinations, titles and labels are read character by character. What is read has whole tokens, and it has no
reference that the text does not have.

* `Mirrors` — a text that begins with the same tokens and references as another one;
* `Genuine.destination?` — a destination as it is written;
* `labelRest?_spec`, `label?_spec` — labels.
-/

namespace Galley.Markdown

open Galley.Source (Marking isPrivateUse isTokenChar Clear clear_cons clear_nil)

variable {m : Marking} {k : Nat} {cs out rest : List Char}

/-- Whether a character can stand in a token or, after the ampersand, in a reference. -/
def isSolid (c : Char) : Bool := isTokenChar c || isReferenceChar c

/-- Two texts begin with the same tokens and references. -/
def Mirrors (out cs : List Char) : Prop :=
  ∀ t : List Char, (∀ c ∈ t, isSolid c = true) → (t <+: out ↔ t <+: cs)

namespace Mirrors

theorem refl (cs : List Char) : Mirrors cs cs := fun _ _ => Iff.rfl

theorem cons {c : Char} (mirrors : Mirrors out cs) : Mirrors (c :: out) (c :: cs) := by
  intro t all
  cases t with
  | nil => simp
  | cons d ds =>
    rw [List.cons_prefix_cons, List.cons_prefix_cons,
      mirrors ds fun e member => all e (List.mem_cons_of_mem _ member)]

/-- Where neither text goes on with a token or a reference, nothing can differ. -/
theorem of_stops (left : ∀ c ∈ out.head?, isSolid c = false) (right : ∀ c ∈ cs.head?, isSolid c = false) :
    Mirrors out cs := by
  intro t all
  cases t with
  | nil => simp
  | cons d ds =>
    have solid := all d List.mem_cons_self
    constructor <;> rintro ⟨tail, rfl⟩
    · rw [left d rfl] at solid
      cases solid
    · rw [right d rfl] at solid
      cases solid

end Mirrors

/-- A character in front of a genuine text that begins as the text behind it did. -/
theorem Genuine.cons_of_mirrors {c : Char} (genuine : Genuine m (c :: cs)) (inner : Genuine m out)
    (mirrors : Mirrors out cs) : Genuine m (c :: out) where
  tokened := by
    refine ⟨fun same => ?_, inner.tokened⟩
    obtain ⟨j, known, here⟩ := genuine.tokened.1 same
    refine ⟨j, known, (mirrors _ fun d member => ?_).mpr here⟩
    simp [isSolid, Marking.isTokenChar_of_mem_body member]
  unforged := by
    refine ⟨fun same chars after read => ?_, inner.unforged⟩
    obtain ⟨t, rfl, all, again⟩ := reference?_spec read
    obtain ⟨tail, rfl⟩ := (mirrors t fun d member => by simp [isSolid, all d member]).mp
      (List.prefix_append t after)
    exact genuine.unforged.1 same chars tail (again tail)

/-! ## Destinations -/

theorem bracketed?_spec {escaped : Bool} (read : bracketed? escaped cs = some (out, rest)) :
    cs = out ++ '>' :: rest := by
  induction cs generalizing escaped out with
  | nil => cases read
  | cons c cs ih =>
    have taken : ∀ {next : Bool}, (bracketed? next cs).map (fun pair => (c :: pair.1, pair.2)) =
        some (out, rest) → c :: cs = out ++ '>' :: rest := fun made => by
      obtain ⟨⟨inner, tail⟩, found, same⟩ := Option.map_eq_some_iff.mp made
      obtain ⟨rfl, rfl⟩ := Prod.mk.inj same
      rw [ih found, List.cons_append]
    unfold bracketed? at read
    simp only at read
    split at read
    · exact taken read
    split at read
    next closing =>
      obtain ⟨rfl, rfl⟩ := Prod.mk.inj (Option.some.inj read)
      rw [beq_iff_eq.mp closing, List.nil_append]
    split at read
    · cases read
    · exact taken read

theorem unbracketed?_spec {depth : Nat} {escaped : Bool}
    (read : unbracketed? depth escaped cs = some (out, rest)) : cs = out ++ rest ∧ Clear rest := by
  induction cs generalizing depth escaped out with
  | nil =>
    unfold unbracketed? at read
    split at read
    · obtain ⟨rfl, rfl⟩ := Prod.mk.inj (Option.some.inj read)
      exact ⟨rfl, clear_nil⟩
    · cases read
  | cons c cs ih =>
    have taken : ∀ {depth : Nat} {next : Bool},
        (unbracketed? depth next cs).map (fun pair => (c :: pair.1, pair.2)) = some (out, rest) →
          c :: cs = out ++ rest ∧ Clear rest := fun made => by
      obtain ⟨⟨inner, tail⟩, found, same⟩ := Option.map_eq_some_iff.mp made
      obtain ⟨rfl, rfl⟩ := Prod.mk.inj same
      obtain ⟨whole, clear⟩ := ih found
      exact ⟨by rw [whole, List.cons_append], clear⟩
    have ended : isTokenChar c = false → some ([], c :: cs) = some (out, rest) →
        c :: cs = out ++ rest ∧ Clear rest := fun other made => by
      obtain ⟨rfl, rfl⟩ := Prod.mk.inj (Option.some.inj made)
      exact ⟨rfl, clear_cons other⟩
    unfold unbracketed? at read
    simp only at read
    split at read
    · exact taken read
    split at read
    next low =>
      split at read
      · exact ended (Source.isTokenChar_of_toNat (by omega) (by omega)) read
      · cases read
    split at read
    · split at read
      · cases read
      · exact taken read
    split at read
    next closing =>
      split at read
      · exact ended (by rw [beq_iff_eq.mp closing]; decide) read
      · exact taken read
    · exact taken read

/-- A destination is a part of the text up to a character that stands in no token. -/
theorem Genuine.destination? (genuine : Genuine m cs) (read : destination? cs = some (out, rest)) :
    Genuine m out ∧ rest <:+ cs := by
  unfold Markdown.destination? at read
  split at read
  next body =>
    obtain rfl := bracketed?_spec read
    refine ⟨Genuine.left (b := '>' :: rest) ⟨genuine.tokened.2, genuine.unforged.2⟩ (clear_cons (by decide)), ?_⟩
    exact ((List.suffix_cons '>' rest).trans (List.suffix_append out _)).trans (List.suffix_cons '<' _)
  next =>
    obtain ⟨rfl, clear⟩ := unbracketed?_spec read
    exact ⟨genuine.left clear, List.suffix_append _ _⟩

/-! ## Labels -/

/-- What continues a label at the end of a line is the end of the text. -/
def Continues (continued : List Char → Option (List Char)) : Prop :=
  ∀ cs next, continued cs = some next → next <:+ cs

/-- What is read of a label: it is derived from the text in front of its closing bracket, and unless blanks
    come first it begins with the same tokens. -/
structure LabelRead (m : Marking) (blanks : Bool) (cs out rest : List Char) : Prop where
  /-- The label is made from the text in front of the closing bracket, and the rest follows it. -/
  ended : ∃ used, cs = used ++ ']' :: rest ∧ m.Derived out used
  /-- Tokens at the start stay there. -/
  starts : blanks = false → ∀ t : List Char, (∀ c ∈ t, isTokenChar c = true) → t <+: cs → t <+: out

namespace LabelRead

/-- A text that does not begin with a token has nothing to keep at its start. -/
theorem starts_of_other {c : Char} (other : isTokenChar c = false) (blanks : Bool) :
    blanks = false → ∀ t : List Char, (∀ c ∈ t, isTokenChar c = true) → t <+: c :: cs → t <+: out := by
  intro _ t all here
  cases t with
  | nil => exact List.nil_prefix
  | cons d ds =>
    have inToken := all d List.mem_cons_self
    rw [(List.cons_prefix_cons.mp here).1, other] at inToken
    cases inToken

/-- A character of the text that is kept. -/
theorem cons (read : LabelRead m false cs out rest) (c : Char) : LabelRead m false (c :: cs) (c :: out) rest where
  ended := by
    have starts := read.starts rfl
    obtain ⟨used, rfl, derived⟩ := read.ended
    refine ⟨c :: used, rfl, .keep (fun _ k here => ?_) derived⟩
    exact starts _ (fun _ => Marking.isTokenChar_of_mem_body) (here.trans (List.prefix_append _ _))
  starts := by
    intro _ t all here
    cases t with
    | nil => exact List.nil_prefix
    | cons d ds =>
      obtain ⟨rfl, inside⟩ := List.cons_prefix_cons.mp here
      exact List.cons_prefix_cons.mpr
        ⟨rfl, read.starts rfl ds (fun e member => all e (List.mem_cons_of_mem _ member)) inside⟩

/-- Blanks in front are one space. -/
theorem spaced (read : LabelRead m false cs out rest) (blanks : Bool) :
    LabelRead m blanks cs (if blanks then ' ' :: out else out) rest := by
  cases blanks with
  | false => exact read
  | true =>
    obtain ⟨used, split, derived⟩ := read.ended
    exact ⟨⟨used, split, .insert (Marking.opening_ne (by decide)) derived⟩, fun absurd' => by cases absurd'⟩

/-- Characters that are left out, the first of which stands in no token. -/
theorem skip {c : Char} {next : List Char} {blanks : Bool} (read : LabelRead m true next out rest)
    (other : isTokenChar c = false) (suffix : next <:+ cs) : LabelRead m blanks (c :: cs) out rest where
  ended := by
    obtain ⟨skipped, rfl⟩ := suffix
    obtain ⟨used, rfl, derived⟩ := read.ended
    exact ⟨c :: (skipped ++ used), by simp, .skip (.skipAll derived)⟩
  starts := starts_of_other other blanks

end LabelRead

theorem labelRest?_spec {continued : List Char → Option (List Char)} (continues : Continues continued)
    {fuel : Nat} {blanks : Bool} {breaks : Nat}
    (read : labelRest? continued fuel blanks breaks cs = some (out, rest)) :
    LabelRead m blanks cs out rest := by
  induction fuel generalizing blanks breaks cs out with
  | zero => cases read
  | succ fuel ih =>
    cases cs with
    | nil => cases read
    | cons c cs =>
      -- One character or two of the text are kept, with a space for the blanks in front.
      have emitted : ∀ {kept after : List Char},
          (∀ {inner tail}, LabelRead m false after inner tail →
            LabelRead m false (c :: cs) (kept ++ inner) tail) →
          (labelRest? continued fuel false 0 after).map (fun pair =>
            (if blanks then ' ' :: (kept ++ pair.1) else kept ++ pair.1, pair.2)) = some (out, rest) →
          LabelRead m blanks (c :: cs) out rest := fun keeps made => by
        obtain ⟨⟨inner, tail⟩, found, same⟩ := Option.map_eq_some_iff.mp made
        obtain ⟨rfl, rfl⟩ := Prod.mk.inj same
        exact (keeps (ih found)).spaced blanks
      unfold labelRest? at read
      simp only at read
      split at read
      next => cases read
      split at read
      next closing =>
        obtain ⟨rfl, rfl⟩ := Prod.mk.inj (Option.some.inj read)
        rw [beq_iff_eq.mp closing]
        refine ⟨⟨[], rfl, ?_⟩, LabelRead.starts_of_other (by decide) blanks⟩
        split
        · exact .insert (Marking.opening_ne (by decide)) (.done _)
        · exact .done _
      split at read
      next =>
        cases cs with
        | nil => cases read
        | cons d after => exact emitted (fun inner => (inner.cons d).cons c) read
      split at read
      next breaking =>
        have other := isTokenChar_of_isBreak breaking
        split at read
        next => cases read
        next =>
          obtain ⟨next, ended, read⟩ := Option.bind_eq_some_iff.mp read
          obtain ⟨more, goesOn, read⟩ := Option.bind_eq_some_iff.mp read
          exact (ih read).skip other ((continues _ _ goesOn).trans (suffix_dropLineBreak? ended))
      split at read
      next space => exact (ih read).skip (isTokenChar_of_isSpace space) (List.suffix_refl _)
      next => exact emitted (fun inner => inner.cons c) read

/-- A label without the blanks around it has whole tokens, no more than its text up to the bracket. -/
theorem label?_spec {continued : List Char → Option (List Char)} (continues : Continues continued)
    (whole : m.Tokened cs) (read : label? continued cs = some (out, rest)) :
    m.Tokened out ∧ (∀ k, m.occurrences k out + m.occurrences k rest ≤ m.occurrences k cs) ∧
      ∃ used, cs = used ++ ']' :: rest := by
  obtain ⟨⟨inner, tail⟩, found, read⟩ := Option.bind_eq_some_iff.mp read
  simp only at read
  split at read
  next => cases read
  next =>
    obtain ⟨rfl, rfl⟩ := Prod.mk.inj (Option.some.inj read)
    obtain ⟨used, split, derived⟩ := (labelRest?_spec (m := m) continues found).ended
    rw [split] at whole
    have front := whole.left (clear_cons (by decide))
    have tokened := derived.tokened front
    obtain ⟨blanks, cut⟩ := List.dropWhile_suffix (l := inner) (· == ' ')
    generalize inner.dropWhile (· == ' ') = body at cut
    subst cut
    refine ⟨?_, fun k => ?_, used, split⟩
    · obtain ⟨tail, cut, all⟩ := dropEndWhile_spec (· == ' ') body
      have clear : Clear tail := clear_of_all (fun c space => by rw [beq_iff_eq.mp space]; decide) all
      have right := tokened.right
      rw [cut] at right
      exact right.left clear
    · have trimmed := occurrences_dropEndWhile (m := m) (k := k) (· == ' ') body
      have inside := Marking.occurrences_right_le (m := m) (k := k) blanks body
      have made := derived.occurrences_le (k := k) front
      have apart := m.occurrences_append_le (k := k) used (']' :: tail)
      have behind := Marking.occurrences_right_le (m := m) (k := k) [']'] tail
      rw [List.singleton_append] at behind
      rw [split]
      omega

end Galley.Markdown
