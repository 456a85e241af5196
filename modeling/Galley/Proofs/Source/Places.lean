import Galley.Proofs.Source.Filling
import Galley.Proofs.Source.Replacing

/-!
# Where tokens stand in a text

The tokens of a text with what stands on both sides of them. From this it can be said which of them are all of a paragraph,
and what a text has to end in for a paragraph to start there.

* `Settled` — a text behind which a paragraph can only start with its whole tag;
* `Seals`, `seals_iff` — a text that leaves any text before it settled;
* `Place`, `Place.standing` — a token in a text, and whether it is all of a paragraph;
* `Extraction.places` — the tokens of a text, with `mem_places` and `pairwise_places` for which they are and in which order.
-/

namespace Galley.Source

/-! ## Tags -/

/-- How a paragraph starts. -/
def paragraphStart : List Char := ['<', 'p', '>']

/-- How a paragraph stops. -/
def paragraphStop : List Char := ['<', '/', 'p', '>']

/-- Behind a text a paragraph can only start with its whole tag. -/
def Settled (text : List Char) : Prop := ∀ gap : List Char, gap.length < 3 → ¬ paragraphStart <:+ text ++ gap

/-- An answer is settled, whatever stands before it. -/
def Seals (answer : List Char) : Prop := ∀ before : List Char, Settled (before ++ answer)

variable {a text gap before : List Char} {c : Char}

theorem start_suffix_append (long : 3 ≤ gap.length) : paragraphStart <:+ text ++ gap ↔ paragraphStart <:+ gap := by
  constructor
  · intro ends
    exact List.suffix_of_suffix_length_le ends (List.suffix_append text gap) long
  · intro ends
    exact ends.trans (List.suffix_append text gap)

/-- What does not end in a character of the tag is settled. -/
theorem settled_of_last (other : c ∉ paragraphStart) (text : List Char) : Settled (text ++ [c]) := by
  intro gap short ends
  rw [List.append_assoc, List.singleton_append] at ends
  have tail : c :: gap <:+ paragraphStart :=
    List.suffix_of_suffix_length_le (List.suffix_append text (c :: gap)) ends (Nat.succ_le_of_lt short)
  exact other (tail.subset List.mem_cons_self)

theorem seals_of_last (other : c ∉ paragraphStart) (text : List Char) : Seals (text ++ [c]) := by
  intro before
  rw [← List.append_assoc]
  exact settled_of_last other _

/-- The stop of a paragraph does not end in a piece of a start. -/
theorem settled_stop (text : List Char) : Settled (text ++ paragraphStop) := by
  rintro gap short ⟨front, same⟩
  have reversed := congrArg List.reverse same
  match gap with
  | [] => simp [paragraphStart, paragraphStop] at reversed
  | [x] => simp [paragraphStart, paragraphStop] at reversed
  | [x, y] => simp [paragraphStart, paragraphStop] at reversed
  | _ :: _ :: _ :: _ =>
    simp only [List.length_cons] at short
    omega

/-- An answer seals if it is no part of the tag, the empty part among them, and does not end in the beginning of one. -/
theorem seals_iff : Seals a ↔ ¬ a <:+: paragraphStart ∧
    ∀ piece : List Char, piece ≠ [] → piece <+: paragraphStart → ¬ piece <:+ a := by
  constructor
  · intro seals
    refine ⟨?_, ?_⟩
    · rintro ⟨before, gap, split⟩
      by_cases short : gap.length < 3
      · exact seals before gap short ⟨[], split.symm⟩
      · have lengths := congrArg List.length split
        simp only [List.length_append, paragraphStart, List.length_cons, List.length_nil] at lengths
        obtain rfl : a = [] := List.length_eq_zero_iff.mp (by omega)
        exact seals paragraphStart [] (by decide) ⟨[], by simp⟩
    · rintro piece some ⟨gap, split⟩ ⟨front, rfl⟩
      have lengths := congrArg List.length split
      have positive := List.length_pos_iff.mpr some
      simp only [List.length_append, paragraphStart, List.length_cons, List.length_nil] at lengths
      exact seals [] gap (by omega) ⟨front, by rw [← split]; simp⟩
  · rintro ⟨noPart, unfinished⟩ before gap short ends
    rw [List.append_assoc] at ends
    -- either the tag begins in the answer, or it begins before it and goes through all of it
    cases List.suffix_or_suffix_of_suffix ends (List.suffix_append before (a ++ gap)) with
    | inl inside =>
      obtain ⟨piece, split⟩ : gap <:+ paragraphStart :=
        List.suffix_of_suffix_length_le (List.suffix_append a gap) inside (Nat.le_of_lt short)
      obtain ⟨front, same⟩ := inside
      rw [← split, ← List.append_assoc] at same
      refine unfinished piece ?_ ⟨gap, split⟩ ⟨front, List.append_cancel_right same⟩
      rintro rfl
      rw [List.nil_append] at split
      rw [split] at short
      exact absurd short (by decide)
    | inr around =>
      obtain ⟨front, split⟩ := around
      exact noPart ⟨front, gap, by rw [List.append_assoc, split]⟩

/-! ## Places -/

/-- A token in a text: what stands before it, what it stands for, and what stands behind it. -/
structure Place where
  before : List Char
  fragment : Fragment
  after : List Char
  deriving DecidableEq

/-- A display formula or a marker stands alone if it is directly between the tags of a paragraph. -/
def Place.standing (place : Place) : Standing :=
  if place.fragment.kind ≠ .mathInline ∧ paragraphStart <:+ place.before ∧ paragraphStop <+: place.after then .standalone
  else .inline

theorem Place.standing_eq_standalone_iff {place : Place} : place.standing = .standalone ↔
    place.fragment.kind ≠ .mathInline ∧ paragraphStart <:+ place.before ∧ paragraphStop <+: place.after := by
  simp only [standing, ite_eq_left_iff, reduceCtorEq, imp_false, not_not]

namespace Extraction

variable {extraction : Extraction} {fragment : Fragment} {zeros : Nat} {token cs rest after : List Char} {place : Place}

/-- The tags of a paragraph hold no sentinel. -/
theorem Paired.ne_of_mem_tag (paired : extraction.Paired) (member : c ∈ paragraphStart ∨ c ∈ paragraphStop) :
    c ≠ extraction.opening ∧ c ≠ extraction.closing := by
  have low : ∀ c ∈ paragraphStart ++ paragraphStop, c.toNat < 0xe000 := by simp [paragraphStart, paragraphStop]
  exact paired.ne (low c (List.mem_append.mpr member))

theorem Paired.opening_not_mem_start (paired : extraction.Paired) : extraction.opening ∉ paragraphStart :=
  fun member => (paired.ne_of_mem_tag (.inl member)).1 rfl

theorem Paired.opening_not_mem_stop (paired : extraction.Paired) : extraction.opening ∉ paragraphStop :=
  fun member => (paired.ne_of_mem_tag (.inr member)).1 rfl

/-- The tokens of a text, from left to right. -/
def placesFrom (extraction : Extraction) : List Char → List Char → List Place
  | _, [] => []
  | before, c :: rest =>
    if c = extraction.opening then
      match h : extraction.tokenAfter? rest with
      | some (fragment, after) =>
        have := length_of_tokenAfter? h
        ⟨before, fragment, after⟩ ::
          placesFrom extraction (before ++ c :: rest.take (rest.length - after.length)) after
      | none => placesFrom extraction (before ++ [c]) rest
    else
      placesFrom extraction (before ++ [c]) rest
termination_by _ cs => cs.length
decreasing_by all_goals (simp only [List.length_cons]; omega)

def places (extraction : Extraction) (text : String) : List Place := extraction.placesFrom [] text.toList

theorem placesFrom_of_ne (other : c ≠ extraction.opening) :
    extraction.placesFrom before (c :: rest) = extraction.placesFrom (before ++ [c]) rest := by
  rw [placesFrom, if_neg other]

theorem placesFrom_no_token (missing : extraction.tokenAfter? rest = none) :
    extraction.placesFrom before (extraction.opening :: rest) =
      extraction.placesFrom (before ++ [extraction.opening]) rest := by
  rw [placesFrom, if_pos rfl]
  split
  next found => cases missing.symm.trans found
  next => rfl

theorem placesFrom_token (paired : extraction.Paired) (spells : extraction.Spells zeros fragment token) :
    extraction.placesFrom before (token ++ after) =
      ⟨before, fragment, after⟩ :: extraction.placesFrom (before ++ token) after := by
  obtain ⟨body, rfl, -⟩ := spells.exists_body
  have read := spells.tokenAfter?_eq paired after
  rw [List.cons_append, placesFrom, if_pos rfl]
  split
  next fragment' after' read' =>
    obtain ⟨rfl, rfl⟩ := Prod.mk.inj (Option.some.inj (read.symm.trans read'))
    have taken : (body ++ after).take ((body ++ after).length - after.length) = body := by simp
    simp only [taken]
  next missing => cases missing.symm.trans read

theorem placesFrom_append (absent : extraction.opening ∉ text) :
    extraction.placesFrom before (text ++ rest) = extraction.placesFrom (before ++ text) rest := by
  induction text generalizing before with
  | nil => simp
  | cons c text ih =>
    obtain ⟨other, absent⟩ := not_or.mp (mt List.mem_cons.mpr absent)
    rw [List.cons_append, placesFrom_of_ne (Ne.symm other), ih absent, List.append_assoc, List.singleton_append]

theorem exists_behind {xs ys front : List Char} (absent : c ∉ xs) (split : xs ++ ys = front ++ c :: rest) :
    ∃ between, front = xs ++ between ∧ ys = between ++ c :: rest := by
  obtain ⟨between, same, behind⟩ | ⟨piece, rfl, behind⟩ := List.append_eq_append_iff.mp split
  · exact ⟨between, same, behind⟩
  · cases piece with
    | nil => exact ⟨[], by simp, behind.symm⟩
    | cons d piece =>
      obtain ⟨rfl, -⟩ := List.cons.inj behind
      exact absurd (List.mem_append_right front List.mem_cons_self) absent

/-- A place lies behind a text, where the text goes on with its token. -/
def IsBehind (extraction : Extraction) (before cs : List Char) (place : Place) : Prop :=
  ∃ front rest, place.before = before ++ front ∧ cs = front ++ extraction.opening :: rest ∧
    extraction.tokenAfter? rest = some (place.fragment, place.after)

theorem isBehind_cons (missing : c = extraction.opening → extraction.tokenAfter? rest = none) :
    extraction.IsBehind before (c :: rest) place ↔ extraction.IsBehind (before ++ [c]) rest place := by
  constructor
  · rintro ⟨front, rest', written, split, found⟩
    cases front with
    | nil =>
      obtain ⟨rfl, rfl⟩ := List.cons.inj split
      cases (missing rfl).symm.trans found
    | cons d front =>
      obtain ⟨rfl, behind⟩ := List.cons.inj split
      exact ⟨front, rest', by rw [written, List.append_assoc, List.singleton_append], behind, found⟩
  · rintro ⟨front, rest', written, behind, found⟩
    exact ⟨c :: front, rest', by rw [written, List.append_assoc, List.singleton_append], congrArg _ behind, found⟩

theorem isBehind_token (paired : extraction.Paired) (spells : extraction.Spells zeros fragment token) :
    extraction.IsBehind before (token ++ after) place ↔
      place = ⟨before, fragment, after⟩ ∨ extraction.IsBehind (before ++ token) after place := by
  obtain ⟨body, rfl, -⟩ := spells.exists_body
  have read := spells.tokenAfter?_eq paired after
  constructor
  · rintro ⟨front, rest, written, split, found⟩
    cases front with
    | nil =>
      obtain rfl := (List.cons.inj split).2
      obtain ⟨same, same'⟩ := Prod.mk.inj (Option.some.inj (read.symm.trans found))
      left
      rw [same, same', ← List.append_nil before, ← written]
    | cons c front =>
      -- the next sentinel is behind the token
      obtain ⟨rfl, inBody⟩ := List.cons.inj split
      obtain ⟨between, rfl, behind⟩ := exists_behind (spells.opening_not_mem paired) inBody
      exact .inr ⟨between, rest, by simp [written], behind, found⟩
  · rintro (rfl | ⟨front, rest, written, behind, found⟩)
    · exact ⟨[], body ++ after, by simp, rfl, read⟩
    · exact ⟨extraction.opening :: body ++ front, rest, by simp [written], by simp [behind], found⟩

/-- The places are those of the tokens, whatever is around them. -/
theorem mem_placesFrom (paired : extraction.Paired) :
    place ∈ extraction.placesFrom before cs ↔ extraction.IsBehind before cs place := by
  fun_induction placesFrom extraction before cs with
  | case1 => simp [IsBehind]
  | case2 before rest fragment after read _ ih =>
    obtain ⟨zeros, token, spells, whole⟩ := (tokenAfter?_eq_some_iff paired).mp read
    obtain ⟨body, rfl, -⟩ := spells.exists_body
    obtain rfl : rest = body ++ after := (List.cons.inj whole).2
    have taken : (body ++ after).take ((body ++ after).length - after.length) = body := by simp
    rw [taken] at ih ⊢
    rw [List.mem_cons, ih, ← List.cons_append, isBehind_token paired spells]
  | case3 before rest missing ih => rw [ih, isBehind_cons fun _ => missing]
  | case4 before c rest other ih => rw [ih, isBehind_cons fun same => absurd same other]

theorem mem_places (paired : extraction.Paired) {text : String} :
    place ∈ extraction.places text ↔ extraction.HoldsToken text place.before place.fragment place.after := by
  rw [places, mem_placesFrom paired]
  constructor
  · rintro ⟨front, rest, written, split, found⟩
    exact ⟨rest, by rw [split, written, List.nil_append], found⟩
  · rintro ⟨rest, split, found⟩
    exact ⟨place.before, rest, by simp, split, found⟩

/-- They come in the order of the text. -/
theorem pairwise_places (paired : extraction.Paired) (before cs : List Char) :
    (extraction.placesFrom before cs).Pairwise fun place later => place.before.length < later.before.length := by
  fun_induction placesFrom extraction before cs with
  | case1 => exact .nil
  | case2 before rest fragment after read _ ih =>
    refine .cons (fun later member => ?_) ih
    obtain ⟨front, _, written, -, -⟩ := (mem_placesFrom paired).mp member
    rw [written]
    simp only [List.length_append, List.length_cons]
    omega
  | case3 before rest missing ih => exact ih
  | case4 before c rest other ih => exact ih

end Extraction
end Galley.Source
