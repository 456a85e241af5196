import Galley.Proofs.Source.Revealing

/-!
# Tokens as they are read

A token is recognized by its number, and a number can be written with zeros in front of it. So a text can hold tokens that
no extraction ever wrote.

* `Extraction.Paired` — the sentinels are one of the pairs that an extraction chooses from;
* `exists_zeros` — decimal digits are the usual ones of a number, with zeros in front of them;
* `Extraction.Spells` — the ways to write the token of a fragment;
* `tokenAfter?_eq_some_iff` — exactly these are read as tokens, and `Spells.eq_of_prefix`, never two of them at one place.
-/

namespace Galley.Source

/-! ## Numbers -/

theorem foldl_zeros (zeros index : Nat) :
    (List.replicate zeros '0' ++ Nat.toDigits 10 index).foldl (fun n d => 10 * n + (d.toNat - 48)) 0 = index := by
  induction zeros with
  | zero => exact foldl_digits index
  | succ zeros ih => rw [List.replicate_succ, List.cons_append, List.foldl_cons]; exact ih

theorem toNat_of_isDigit {d : Char} (digit : d.isDigit = true) : 48 ≤ d.toNat ∧ d.toNat ≤ 57 := by
  simpa [Char.isDigit, UInt32.le_iff_toNat_le] using digit

theorem toDigits_digit {d : Char} (digit : d.isDigit = true) : Nat.toDigits 10 (d.toNat - 48) = [d] := by
  have range := toNat_of_isDigit digit
  rw [Nat.toDigits_of_lt_base (by omega), List.cons.injEq, ← Char.toNat_inj,
    Nat.toNat_digitChar_of_lt_ten (by omega)]
  exact ⟨by omega, rfl⟩

/-- Decimal digits are those of a number with zeros in front of them. -/
theorem exists_zeros {ds : List Char} (digits : ∀ d ∈ ds, d.isDigit = true) (some : ds ≠ []) :
    ∃ zeros, ds =
      List.replicate zeros '0' ++ Nat.toDigits 10 (ds.foldl (fun n d => 10 * n + (d.toNat - 48)) 0) := by
  induction ds using List.reverseRecOn with
  | nil => exact absurd rfl some
  | append_singleton ds d ih =>
    have last : d.isDigit = true := digits d (by simp)
    have small : d.toNat - 48 < 10 := by
      have range := toNat_of_isDigit last
      omega
    rw [List.foldl_append, List.foldl_cons, List.foldl_nil]
    by_cases first : ds = []
    · exact ⟨0, by simp [first, toDigits_digit last]⟩
    obtain ⟨zeros, same⟩ := ih (fun c member => digits c (by simp [member])) first
    generalize ds.foldl (fun n d => 10 * n + (d.toNat - 48)) 0 = n at same ⊢
    by_cases zero : n = 0
    · -- all digits in front of the last one are zeros
      refine ⟨zeros + 1, ?_⟩
      rw [same, zero, Nat.toDigits_zero, Nat.mul_zero, Nat.zero_add, toDigits_digit last, List.replicate_succ']
    · refine ⟨zeros, ?_⟩
      rw [← Nat.toDigits_append_toDigits (by decide) (Nat.pos_of_ne_zero zero) small, toDigits_digit last,
        ← List.append_assoc, ← same]

namespace Extraction

variable {extraction : Extraction} {fragment fragment' : Fragment} {zeros zeros' : Nat} {token token' cs after : List Char}

/-! ## Sentinels -/

/-- The sentinels of an extraction are one of the pairs that it could choose from. -/
def Paired (extraction : Extraction) : Prop := (extraction.opening, extraction.closing) ∈ sentinelPairs

theorem paired_ofText (source : String) : (Extraction.ofText source).Paired := by
  cases found : freshSentinels? source.toList with
  | none =>
    rw [ofText_of_no_sentinels found]
    exact List.mem_map.mpr ⟨0, by simp, rfl⟩
  | some pair =>
    rw [ofText_of_sentinels found]
    exact (sentinels_of_freshSentinels? found).listed

theorem Paired.opening_isDigit (paired : extraction.Paired) : extraction.opening.isDigit = false :=
  not_isDigit_of_private (toNat_of_mem_sentinelPairs paired).1

theorem Paired.closing_isDigit (paired : extraction.Paired) : extraction.closing.isDigit = false := by
  obtain ⟨low, next, -⟩ := toNat_of_mem_sentinelPairs paired
  exact not_isDigit_of_private (by omega)

theorem Paired.marked (paired : extraction.Paired) : extraction.Marked where
  notDigit := paired.opening_isDigit
  apart same := by
    have numbers := (toNat_of_mem_sentinelPairs paired).2.1
    rw [same] at numbers
    omega

/-- A character of another kind is no sentinel. -/
theorem Paired.ne {c : Char} (paired : extraction.Paired) (low : c.toNat < 0xe000) :
    c ≠ extraction.opening ∧ c ≠ extraction.closing := by
  obtain ⟨private_, next, -⟩ := toNat_of_mem_sentinelPairs paired
  constructor <;> rintro rfl <;> omega

/-! ## Ways to write a token -/

/-- A way to write the token of a fragment: as it was issued, or with zeros in front of the number. -/
def Spells (extraction : Extraction) (zeros : Nat) (fragment : Fragment) (token : List Char) : Prop :=
  ∃ index, extraction.fragments[index]? = some fragment ∧
    token = extraction.opening :: (List.replicate zeros '0' ++ Nat.toDigits 10 index ++ [extraction.closing])

theorem isDigit_of_mem_zeros {index : Nat} {d : Char}
    (member : d ∈ List.replicate zeros '0' ++ Nat.toDigits 10 index) : d.isDigit = true := by
  cases List.mem_append.mp member with
  | inl zero => rw [List.eq_of_mem_replicate zero]; rfl
  | inr digit => exact Nat.isDigit_of_mem_toDigits (by decide) (by decide) digit

/-- Behind its first character a token holds digits and the closing sentinel. -/
theorem Spells.exists_body (spells : extraction.Spells zeros fragment token) :
    ∃ body, token = extraction.opening :: body ∧
      ∀ c ∈ body, c.isDigit = true ∨ c = extraction.closing := by
  obtain ⟨index, -, rfl⟩ := spells
  refine ⟨_, rfl, fun c member => ?_⟩
  cases List.mem_append.mp member with
  | inl digit => exact .inl (isDigit_of_mem_zeros digit)
  | inr last => exact .inr (List.mem_singleton.mp last)

theorem Spells.not_mem (paired : extraction.Paired) (spells : extraction.Spells zeros fragment token)
    {c : Char} (notDigit : c.isDigit = false) (low : c.toNat < 0xe000) : c ∉ token := by
  obtain ⟨body, rfl, chars⟩ := spells.exists_body
  obtain ⟨notOpening, notClosing⟩ := paired.ne low
  rw [List.mem_cons, not_or]
  refine ⟨notOpening, fun member => ?_⟩
  cases chars c member with
  | inl digit => cases notDigit.symm.trans digit
  | inr last => exact notClosing last

theorem Spells.length_pos (spells : extraction.Spells zeros fragment token) : 0 < token.length := by
  obtain ⟨body, rfl, -⟩ := spells.exists_body
  exact Nat.succ_pos body.length

theorem tokenAfter?_eq_some_iff (paired : extraction.Paired) :
    extraction.tokenAfter? cs = some (fragment, after) ↔
      ∃ zeros token, extraction.Spells zeros fragment token ∧ extraction.opening :: cs = token ++ after := by
  constructor
  · intro read
    unfold tokenAfter? at read
    have digits : ∀ d ∈ cs.takeWhile Char.isDigit, d.isDigit = true := fun d member => List.mem_takeWhile_imp member
    have parts := List.prefix_iff_eq_append.mp (List.takeWhile_prefix Char.isDigit (l := cs))
    simp only at read
    split at read
    next d ds c rest some behind =>
      split at read
      next ends =>
        obtain ⟨found, numbered, same⟩ := Option.map_eq_some_iff.mp read
        obtain ⟨rfl, rfl⟩ := Prod.mk.inj same
        obtain ⟨zeros, written⟩ := exists_zeros digits (by simp [some])
        refine ⟨zeros, _, ⟨_, numbered, rfl⟩, ?_⟩
        rw [← written, List.cons_append, List.append_assoc, List.singleton_append, ← ends, ← behind, parts]
      next => cases read
    next => cases read
  · rintro ⟨zeros, token, ⟨index, numbered, rfl⟩, same⟩
    have behind : cs = List.replicate zeros '0' ++ Nat.toDigits 10 index ++ extraction.closing :: after := by
      simpa using same
    have digits : cs.takeWhile Char.isDigit = List.replicate zeros '0' ++ Nat.toDigits 10 index := by
      rw [behind, List.takeWhile_append_of_pos fun d => isDigit_of_mem_zeros,
        List.takeWhile_cons_of_neg (by simp [paired.closing_isDigit]), List.append_nil]
    unfold tokenAfter?
    simp only [digits]
    rw [behind, List.drop_left]
    cases written : List.replicate zeros '0' ++ Nat.toDigits 10 index with
    | nil => exact absurd (List.append_eq_nil_iff.mp written).2 Nat.toDigits_ne_nil
    | cons d ds => simp only [if_true, ← written, foldl_zeros, numbered, Option.map_some]

/-- Behind the opening sentinel the rest of a token is read as its fragment, in front of any text. -/
theorem Spells.tokenAfter?_eq {body : List Char} (paired : extraction.Paired)
    (spells : extraction.Spells zeros fragment (extraction.opening :: body)) (after : List Char) :
    extraction.tokenAfter? (body ++ after) = some (fragment, after) :=
  (tokenAfter?_eq_some_iff paired).mpr ⟨zeros, extraction.opening :: body, spells, rfl⟩

/-- A text does not begin with two tokens. -/
theorem Spells.eq_of_prefix (paired : extraction.Paired) (first : extraction.Spells zeros fragment token)
    (second : extraction.Spells zeros' fragment' token') (here : token <+: cs) (here' : token' <+: cs) :
    token = token' ∧ fragment = fragment' := by
  obtain ⟨body, rfl, -⟩ := first.exists_body
  obtain ⟨body', rfl, -⟩ := second.exists_body
  obtain ⟨after, rfl⟩ := here
  obtain ⟨after', same⟩ := here'
  have behind : body' ++ after' = body ++ after := (List.cons.inj same).2
  have read := second.tokenAfter?_eq paired after'
  rw [behind, first.tokenAfter?_eq paired after] at read
  obtain ⟨rfl, rfl⟩ := Prod.mk.inj (Option.some.inj read)
  rw [List.append_cancel_right behind]
  exact ⟨rfl, rfl⟩

/-- A token that was issued is written in one way only. -/
theorem Spells.zeros_eq (first : extraction.Spells 0 fragment token) (second : extraction.Spells zeros fragment' token) :
    zeros = 0 := by
  obtain ⟨index, -, rfl⟩ := first
  obtain ⟨index', -, same⟩ := second
  have digits := List.append_cancel_right (List.cons.inj same).2
  have numbers := congrArg (List.foldl (fun n d => 10 * n + (d.toNat - 48)) 0) digits
  rw [foldl_zeros, foldl_zeros] at numbers
  have lengths := congrArg List.length digits
  simp only [numbers, List.length_append, List.length_replicate] at lengths
  omega

end Extraction
end Galley.Source
