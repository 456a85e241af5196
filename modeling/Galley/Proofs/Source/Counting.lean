import Galley.Proofs.Source.Filling
import Galley.Proofs.Source.Marking

/-!
# Tokens of an extraction

An extraction writes the token of each region once. In a text that holds only whole tokens, what the reader
of tokens finds can be counted.

* `Fits` — an extraction whose tokens are those of a marking;
* `opening_not_mem_unmaskChars` — no sentinel is left when the fragments are back;
* `nodup_tokens` — what stands at most once in a text is met at most once;
* `fits_ofText` — what is taken out of a document.
-/

namespace Galley.Source

variable {m : Marking} {extraction : Extraction} {k : Nat} {cs : List Char}

/-- The tokens of an extraction are those of a marking, and no fragment can be taken for a token. -/
structure Fits (m : Marking) (extraction : Extraction) : Prop where
  /-- Tokens begin with the same character. -/
  opening : extraction.opening = m.opening
  /-- Tokens end with the same character. -/
  closing : extraction.closing = m.closing
  /-- There is a token for each fragment. -/
  count : extraction.fragments.length = m.count
  /-- Fragments hold no sentinel. -/
  fresh : ∀ fragment ∈ extraction.fragments, m.opening ∉ fragment.source.toList
  /-- Fragments can be told apart. -/
  distinct : extraction.fragments.Nodup

namespace Fits

/-- The opening sentinel is a character for private use. -/
theorem isPrivate (fits : Fits m extraction) : 0xe000 ≤ extraction.opening.toNat := by
  have isPrivate := m.openingPrivate
  simp only [isPrivateUse, Bool.and_eq_true, decide_eq_true_eq] at isPrivate
  rw [fits.opening]
  exact isPrivate.1

/-- A whole token is read as the fragment with its number. -/
theorem tokenAfter?_body (fits : Fits m extraction) {k : Nat} (known : k < m.count) (after : List Char) :
    ∃ fragment, extraction.fragments[k]? = some fragment ∧
      extraction.tokenAfter? (m.body k ++ after) = some (fragment, after) := by
  have inside : k < extraction.fragments.length := by rw [fits.count]; exact known
  have notDigit : extraction.closing.isDigit = false := by
    rw [fits.closing]
    exact Marking.not_isDigit_of_isPrivateUse m.closingPrivate
  have read := extraction.tokenAfter?_digits notDigit k after
  rw [List.getElem?_eq_getElem inside, Option.map_some, fits.closing] at read
  refine ⟨_, List.getElem?_eq_getElem inside, ?_⟩
  rw [Marking.body, List.append_assoc, List.singleton_append, read]

end Fits

/-- In a text with whole tokens nothing is left of them when the fragments are back. -/
theorem opening_not_mem_unmaskChars (fits : Fits m extraction) (whole : m.Tokened cs) :
    m.opening ∉ extraction.unmaskChars cs := by
  fun_induction Extraction.unmaskChars extraction cs with
  | case1 => exact List.not_mem_nil
  | case2 rest fragment after found _ ih =>
    obtain ⟨k, known, tail, rfl⟩ := whole.1 fits.opening
    obtain ⟨fragment', numbered, read⟩ := fits.tokenAfter?_body known tail
    obtain ⟨rfl, rfl⟩ := Prod.mk.inj (Option.some.inj (read.symm.trans found))
    rw [List.mem_append, not_or]
    exact ⟨fits.fresh _ (List.mem_of_getElem? numbered), ih whole.2.right⟩
  | case3 rest missing ih =>
    obtain ⟨k, known, tail, rfl⟩ := whole.1 fits.opening
    obtain ⟨fragment, -, read⟩ := fits.tokenAfter?_body known tail
    cases read.symm.trans missing
  | case4 c rest other ih =>
    rw [List.mem_cons, not_or]
    exact ⟨fun same => other (same.symm.trans fits.opening.symm), ih whole.2⟩

/-- How often a fragment is met is how often its token stands in the text. -/
theorem count_tokens (fits : Fits m extraction) (whole : m.Tokened cs) {fragment : Fragment}
    (numbered : extraction.fragments[k]? = some fragment) :
    (extraction.tokens cs).count fragment = m.occurrences k cs := by
  fun_induction Extraction.tokens extraction cs with
  | case1 => rfl
  | case2 rest met after found _ ih =>
    obtain ⟨j, known, tail, rfl⟩ := whole.1 fits.opening
    obtain ⟨fragment', numbered', read⟩ := fits.tokenAfter?_body known tail
    obtain ⟨rfl, rfl⟩ := Prod.mk.inj (Option.some.inj (read.symm.trans found))
    have behind : m.occurrences k (m.body j ++ tail) = m.occurrences k tail := by
      rw [Marking.occurrences_append (Marking.tokened_of_not_mem Marking.opening_not_mem_body),
        Marking.occurrences_of_not_mem Marking.opening_not_mem_body, Nat.zero_add]
    rw [Marking.occurrences, behind, ← ih whole.2.right, List.count_cons, Nat.add_comm]
    congr 1
    -- The token that is met is that of the fragment, because fragments are distinct.
    by_cases same : k = j
    · subst same
      obtain rfl := Option.some.inj (numbered.symm.trans numbered')
      rw [if_pos (beq_self_eq_true _), if_pos ⟨fits.opening, List.prefix_append _ _⟩]
    · have apart : fragment' ≠ fragment := by
        rintro rfl
        have inside := (List.getElem?_eq_some_iff.mp numbered).1
        exact same ((List.getElem?_inj inside fits.distinct).mp (numbered.trans numbered'.symm))
      rw [if_neg (by simpa using apart), if_neg]
      rintro ⟨-, here⟩
      exact same (Marking.eq_of_bodies here (List.prefix_append _ _))
  | case3 rest missing ih =>
    obtain ⟨j, known, tail, rfl⟩ := whole.1 fits.opening
    obtain ⟨fragment, -, read⟩ := fits.tokenAfter?_body known tail
    cases read.symm.trans missing
  | case4 c rest other ih =>
    rw [Marking.occurrences, if_neg fun both => other (both.1.trans fits.opening.symm), Nat.zero_add,
      ih whole.2]

/-- If no token stands twice in a text, no fragment is met twice. -/
theorem nodup_tokens (fits : Fits m extraction) (whole : m.Tokened cs)
    (once : ∀ k, m.occurrences k cs ≤ 1) : (extraction.tokens cs).Nodup := by
  rw [List.nodup_iff_count]
  intro fragment
  by_cases member : fragment ∈ extraction.fragments
  · obtain ⟨k, numbered⟩ := List.mem_iff_getElem?.mp member
    rw [count_tokens fits whole numbered]
    exact once k
  · rw [List.count_eq_zero_of_not_mem]
    · omega
    · exact fun met => member (Extraction.mem_fragments_of_mem_tokens met)

/-! ## What is taken out -/

theorem Sentinels.isPrivateUse {opening closing : Char} (sentinels : Sentinels opening closing cs) :
    isPrivateUse opening = true ∧ isPrivateUse closing = true ∧ opening ≠ closing := by
  obtain ⟨low, next, high⟩ := toNat_of_mem_sentinelPairs sentinels.listed
  simp only [Source.isPrivateUse, Bool.and_eq_true, decide_eq_true_eq]
  refine ⟨⟨by omega, by omega⟩, ⟨by omega, by omega⟩, ?_⟩
  rintro rfl
  omega

/-- A marking with the sentinels of a text. -/
def markingOf {opening closing : Char} (sentinels : Sentinels opening closing cs) (count : Nat) :
    Marking where
  opening
  closing
  count
  openingPrivate := sentinels.isPrivateUse.1
  closingPrivate := sentinels.isPrivateUse.2.1
  distinct := sentinels.isPrivateUse.2.2

theorem tokened_tokenChars (known : k < m.count) :
    m.Tokened (tokenChars m.opening m.closing k) :=
  ⟨fun _ => ⟨k, known, List.prefix_refl _⟩, Marking.tokened_of_not_mem Marking.opening_not_mem_body⟩

theorem occurrences_tokenChars (j : Nat) :
    m.occurrences k (tokenChars m.opening m.closing j) = if k = j then 1 else 0 := by
  rw [tokenChars, Marking.occurrences]
  change _ + m.occurrences k (m.body j) = _
  rw [Marking.occurrences_of_not_mem Marking.opening_not_mem_body, Nat.add_zero]
  by_cases same : k = j
  · rw [if_pos same, if_pos ⟨rfl, same ▸ List.prefix_refl _⟩]
  · rw [if_neg same, if_neg]
    rintro ⟨-, here⟩
    exact same (Marking.eq_of_bodies here (List.prefix_refl _))

/-- Every token that is written is whole, and each is written once. -/
theorem tokened_takeOut (regions : List Region) (offset index : Nat) (fresh : m.opening ∉ cs)
    (known : index + regions.length ≤ m.count) :
    m.Tokened (takeOut m.opening m.closing regions offset index cs).1 ∧
      ∀ k, m.occurrences k (takeOut m.opening m.closing regions offset index cs).1 ≤
        if index ≤ k then 1 else 0 := by
  induction regions generalizing offset index cs with
  | nil =>
    refine ⟨Marking.tokened_of_not_mem fresh, fun k => ?_⟩
    rw [takeOut, Marking.occurrences_of_not_mem fresh]
    omega
  | cons region regions ih =>
    obtain ⟨before, source, after, rfl, taken⟩ :=
      takeOut_cons m.opening m.closing region regions offset index cs
    simp only [List.mem_append, not_or] at fresh
    simp only [List.length_cons] at known
    obtain ⟨tokened, once⟩ := ih region.span.stop (index + 1) fresh.2 (by omega)
    have front := (Marking.tokened_of_not_mem fresh.1.1).append
      (tokened_tokenChars (m := m) (k := index) (by omega))
    rw [taken]
    refine ⟨front.append tokened, fun k => ?_⟩
    have later := once k
    rw [Marking.occurrences_append front, Marking.occurrences_append
      (Marking.tokened_of_not_mem fresh.1.1), Marking.occurrences_of_not_mem fresh.1.1,
      occurrences_tokenChars]
    split at later <;> split <;> split <;> omega

/-- Fragments are parts of the text, and their tokens are numbered from `index` on. -/
theorem fragments_takeOut (opening closing : Char) (regions : List Region) (offset index : Nat)
    (cs : List Char) :
    (takeOut opening closing regions offset index cs).2.map Fragment.token =
        (List.range' index regions.length).map (fun j => String.ofList (tokenChars opening closing j)) ∧
      ∀ fragment ∈ (takeOut opening closing regions offset index cs).2,
        ∀ c ∈ fragment.source.toList, c ∈ cs := by
  induction regions generalizing offset index cs with
  | nil => exact ⟨rfl, fun _ absent => absurd absent List.not_mem_nil⟩
  | cons region regions ih =>
    obtain ⟨before, source, after, rfl, taken⟩ :=
      takeOut_cons opening closing region regions offset index cs
    obtain ⟨numbered, parts⟩ := ih region.span.stop (index + 1) after
    rw [taken]
    refine ⟨by rw [List.map_cons, numbered, List.length_cons, List.range'_succ, List.map_cons],
      List.forall_mem_cons.mpr ⟨fun c member => ?_, fun fragment member c inside => ?_⟩⟩
    · rw [String.toList_ofList] at member
      exact List.mem_append_left _ (List.mem_append_right _ member)
    · exact List.mem_append_right _ (parts fragment member c inside)

/-- In a document that leaves sentinels to be chosen, the text without the regions holds only whole tokens,
    each of them once. -/
theorem fits_ofText {source : String} {opening closing : Char}
    (found : freshSentinels? source.toList = some (opening, closing)) :
    ∃ m : Marking, Fits m (.ofText source) ∧ m.Tokened (Extraction.ofText source).text.toList ∧
      ∀ k, m.occurrences k (Extraction.ofText source).text.toList ≤ 1 := by
  have sentinels := sentinels_of_freshSentinels? found
  have parts := fragments_takeOut opening closing (protectedRegions source) 0 0 source.toList
  have lengths : (takeOut opening closing (protectedRegions source) 0 0 source.toList).2.length =
      (protectedRegions source).length := by
    simpa using congrArg List.length parts.1
  obtain ⟨tokened, once⟩ := tokened_takeOut (m := markingOf sentinels (protectedRegions source).length)
    (protectedRegions source) 0 0 sentinels.openingFresh (by simp [markingOf])
  refine ⟨markingOf sentinels (protectedRegions source).length, ?_, ?_, fun k => ?_⟩
  · rw [ofText_of_sentinels found]
    refine ⟨rfl, rfl, lengths, fun fragment member inside => ?_, ?_⟩
    · exact sentinels.openingFresh (parts.2 fragment member _ inside)
    · refine List.Pairwise.of_map (S := (· ≠ ·)) Fragment.token
        (fun a b apart same => apart (congrArg _ same)) ?_
      rw [parts.1]
      refine List.Pairwise.map _ (fun i j apart same => apart ?_) List.nodup_range'
      have tokens := congrArg String.toList same
      rw [String.toList_ofList, String.toList_ofList] at tokens
      exact Marking.body_injective (m := markingOf sentinels 0) (List.cons.inj tokens).2
  · rw [ofText_of_sentinels found, String.toList_ofList]
    exact tokened
  · rw [ofText_of_sentinels found, String.toList_ofList]
    exact Nat.le_trans (once k) (by split <;> omega)

end Galley.Source
