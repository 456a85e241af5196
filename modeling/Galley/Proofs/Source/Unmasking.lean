import Galley.Source.Extraction
import Galley.Proofs.Source.ProtectedRegions

/-!
# Unmasking

The tokens of an extraction can be read back, because its sentinels stand nowhere in the document and
because the number between them is written in decimal digits, which no sentinel is.

* `Sentinels` — what the chosen pair of sentinels is known to satisfy;
* `tokenAfter?_digits` — the number of a token is read back;
* `unmaskChars_takeOut` — putting the fragments back undoes taking them out;
* `unmask_text_ofText` — an extraction loses nothing.
-/

namespace Galley.Source

/-! ## Sentinels -/

/-- A pair of sentinels with which the regions of a text can be told from the rest of it. -/
structure Sentinels (opening closing : Char) (cs : List Char) : Prop where
  /-- The pair is one of those that can enclose tokens. -/
  listed : (opening, closing) ∈ sentinelPairs
  /-- The text does not hold the character that begins a token. -/
  openingFresh : opening ∉ cs
  /-- The text does not hold the character that ends a token. -/
  closingFresh : closing ∉ cs

theorem toNat_ofNat_of_isValidChar {n : Nat} (valid : n.isValidChar) : (Char.ofNat n).toNat = n := by
  rw [Char.ofNat, dif_pos valid]
  rfl

/-- The code points of a pair of sentinels: neighbours among those for private use. -/
theorem toNat_of_mem_sentinelPairs {opening closing : Char}
    (listed : (opening, closing) ∈ sentinelPairs) :
    0xe000 ≤ opening.toNat ∧ closing.toNat = opening.toNat + 1 ∧ closing.toNat < 0xf900 := by
  obtain ⟨i, hi, pair⟩ := List.mem_map.mp listed
  have bound : i < 3200 := List.mem_range.mp hi
  simp only [Prod.mk.injEq] at pair
  obtain ⟨rfl, rfl⟩ := pair
  rw [toNat_ofNat_of_isValidChar (Or.inr ⟨by omega, by omega⟩),
    toNat_ofNat_of_isValidChar (Or.inr ⟨by omega, by omega⟩)]
  omega

/-- A character for private use is no digit. -/
theorem not_isDigit_of_private {c : Char} (low : 0xe000 ≤ c.toNat) : c.isDigit = false := by
  have large : 57 < c.val := by
    rw [UInt32.lt_iff_toNat_lt]
    change 57 < c.toNat
    omega
  simp [Char.isDigit, UInt32.not_le.mpr large]

/-- For a sentinel, what counts as taken is exactly what the text holds. -/
theorem contains_taken {cs : List Char} {c : Char} (low : 0xe000 ≤ c.toNat)
    (high : c.toNat < 0xf900) :
    (cs.filter fun d => 0xe000 ≤ d.toNat && d.toNat < 0xf900).contains c = cs.contains c := by
  rw [Bool.eq_iff_iff]
  simp [low, high]

theorem sentinels_of_freshSentinels? {cs : List Char} {opening closing : Char}
    (found : freshSentinels? cs = some (opening, closing)) : Sentinels opening closing cs := by
  unfold freshSentinels? at found
  have listed := List.mem_of_find?_eq_some found
  have fresh := List.find?_some found
  obtain ⟨low, next, high⟩ := toNat_of_mem_sentinelPairs listed
  simp only [contains_taken low (by omega), contains_taken (c := closing) (by omega) high,
    Bool.and_eq_true, Bool.not_eq_true', List.contains_eq_mem, decide_eq_false_iff_not] at fresh
  exact ⟨listed, fresh.1, fresh.2⟩

theorem Sentinels.closing_not_digit {opening closing : Char} {cs : List Char}
    (sentinels : Sentinels opening closing cs) : closing.isDigit = false := by
  obtain ⟨low, next, -⟩ := toNat_of_mem_sentinelPairs sentinels.listed
  exact not_isDigit_of_private (by omega)

/-- There are no sentinels for a text exactly when it holds a character of every pair. -/
theorem freshSentinels?_eq_none {cs : List Char} :
    freshSentinels? cs = none ↔ ∀ pair ∈ sentinelPairs, pair.1 ∈ cs ∨ pair.2 ∈ cs := by
  unfold freshSentinels?
  rw [List.find?_eq_none]
  refine forall₂_congr fun pair listed => ?_
  obtain ⟨low, next, high⟩ := toNat_of_mem_sentinelPairs listed
  simp only [contains_taken low (by omega), contains_taken (c := pair.2) (by omega) high,
    Bool.and_eq_true, Bool.not_eq_true', List.contains_eq_mem, decide_eq_false_iff_not]
  by_cases first : pair.1 ∈ cs <;> by_cases second : pair.2 ∈ cs <;> simp [first, second]

/-! ## Tokens -/

/-- Numbers are read as they are written. -/
theorem foldl_digits (index : Nat) :
    (Nat.toDigits 10 index).foldl (fun n d => 10 * n + (d.toNat - 48)) 0 = index := by
  have read := Nat.ofDigitChars_ten_toDigits (n := index)
  rw [Nat.ofDigitChars_eq_foldl] at read
  exact read

theorem takeWhile_digits {closing : Char} (notDigit : closing.isDigit = false) (index : Nat)
    (rest : List Char) :
    (Nat.toDigits 10 index ++ closing :: rest).takeWhile Char.isDigit = Nat.toDigits 10 index := by
  have digits : ∀ d ∈ Nat.toDigits 10 index, d.isDigit = true := fun d member =>
    Nat.isDigit_of_mem_toDigits (by decide) (by decide) member
  rw [List.takeWhile_append_of_pos digits, List.takeWhile_cons_of_neg (by simp [notDigit]),
    List.append_nil]

/-- What is left of a text and what is taken out of it. -/
theorem takeOut_cons (opening closing : Char) (region : Region) (regions : List Region)
    (offset index : Nat) (cs : List Char) :
    ∃ before source after, cs = before ++ source ++ after ∧
      takeOut opening closing (region :: regions) offset index cs =
        (before ++ tokenChars opening closing index ++
          (takeOut opening closing regions region.span.stop (index + 1) after).1,
        ⟨region.kind, String.ofList source, String.ofList (tokenChars opening closing index)⟩ ::
          (takeOut opening closing regions region.span.stop (index + 1) after).2) := by
  have outer := Text.cut_append (region.span.start - offset) cs
  have inner := Text.cut_append (region.span.stop - region.span.start)
    (Text.cut (region.span.start - offset) cs).2
  refine ⟨_, _, _, ?_, rfl⟩
  rw [List.append_assoc, inner, outer]

namespace Extraction

variable {extraction : Extraction}

/-- The number between two sentinels is the number of the fragment. -/
theorem tokenAfter?_digits (notDigit : extraction.closing.isDigit = false) (index : Nat)
    (rest : List Char) :
    extraction.tokenAfter? (Nat.toDigits 10 index ++ extraction.closing :: rest) =
      extraction.fragments[index]?.map fun fragment => (fragment, rest) := by
  unfold tokenAfter?
  rw [takeWhile_digits notDigit]
  simp only [List.drop_left]
  cases written : Nat.toDigits 10 index with
  | nil => exact absurd written Nat.toDigits_ne_nil
  | cons d ds => simp only [if_true, ← written, foldl_digits]

/-- A token stands for a fragment of the extraction. -/
theorem fragment_mem_of_tokenAfter? {cs : List Char} {found : Fragment × List Char}
    (read : extraction.tokenAfter? cs = some found) : found.1 ∈ extraction.fragments := by
  simp only [tokenAfter?] at read
  split at read
  · split at read
    · obtain ⟨fragment, numbered, rfl⟩ := Option.map_eq_some_iff.mp read
      exact List.mem_of_getElem? numbered
    · simp at read
  · simp at read

/-- Without fragments a text stays as it is. -/
theorem unmaskChars_of_no_fragments (untouched : extraction.fragments = []) (cs : List Char) :
    extraction.unmaskChars cs = cs := by
  have missing : ∀ rest, extraction.tokenAfter? rest = none := fun rest => by
    cases read : extraction.tokenAfter? rest with
    | none => rfl
    | some found =>
      have member := fragment_mem_of_tokenAfter? read
      rw [untouched] at member
      exact absurd member List.not_mem_nil
  induction cs with
  | nil => simp [unmaskChars]
  | cons c rest ih =>
    rw [unmaskChars, ih]
    split
    · split
      next found => simp [missing] at found
      next => rfl
    · rfl

/-- A text that does not hold the character that begins a token stays as it is. -/
theorem unmaskChars_append {before : List Char} (fresh : extraction.opening ∉ before)
    (rest : List Char) :
    extraction.unmaskChars (before ++ rest) = before ++ extraction.unmaskChars rest := by
  induction before with
  | nil => rfl
  | cons c cs ih =>
    obtain ⟨notOpening, fresh⟩ := not_or.mp (mt List.mem_cons.mpr fresh)
    rw [List.cons_append, unmaskChars, if_neg (Ne.symm notOpening), ih fresh, List.cons_append]

/-- A token gives way to the fragment with its number. -/
theorem unmaskChars_token (notDigit : extraction.closing.isDigit = false) {index : Nat}
    {fragment : Fragment} (numbered : extraction.fragments[index]? = some fragment)
    (rest : List Char) :
    extraction.unmaskChars (tokenChars extraction.opening extraction.closing index ++ rest) =
      fragment.source.toList ++ extraction.unmaskChars rest := by
  have read := tokenAfter?_digits notDigit index rest
  rw [numbered, Option.map_some] at read
  rw [tokenChars, List.cons_append, List.append_assoc, List.singleton_append, unmaskChars, if_pos rfl]
  split
  next found =>
    rw [read] at found
    simp only [Option.some.injEq, Prod.mk.injEq] at found
    obtain ⟨rfl, rfl⟩ := found
    rfl
  next missing => simp [read] at missing

/-- Putting the fragments back undoes taking them out. The fragments that are taken out of the rest of the
    text are those of the extraction from `index` on. -/
theorem unmaskChars_takeOut (notDigit : extraction.closing.isDigit = false) (regions : List Region)
    (offset index : Nat) (cs : List Char) (fresh : extraction.opening ∉ cs)
    (numbered : extraction.fragments.drop index =
      (takeOut extraction.opening extraction.closing regions offset index cs).2) :
    extraction.unmaskChars
      (takeOut extraction.opening extraction.closing regions offset index cs).1 = cs := by
  induction regions generalizing offset index cs with
  | nil =>
    have whole := unmaskChars_append fresh []
    rw [List.append_nil, unmaskChars, List.append_nil] at whole
    exact whole
  | cons region regions ih =>
    obtain ⟨before, source, after, rfl, taken⟩ :=
      takeOut_cons extraction.opening extraction.closing region regions offset index cs
    rw [taken] at numbered ⊢
    simp only [List.mem_append, not_or] at fresh
    obtain ⟨⟨freshBefore, -⟩, freshAfter⟩ := fresh
    have first : extraction.fragments[index]? =
        some ⟨region.kind, String.ofList source,
          String.ofList (tokenChars extraction.opening extraction.closing index)⟩ := by
      rw [← List.head?_drop, numbered, List.head?_cons]
    have others : extraction.fragments.drop (index + 1) =
        (takeOut extraction.opening extraction.closing regions region.span.stop (index + 1) after).2 := by
      rw [← List.drop_drop, numbered, List.drop_succ_cons, List.drop_zero]
    rw [List.append_assoc, unmaskChars_append freshBefore, unmaskChars_token notDigit first,
      ih _ _ _ freshAfter others, String.toList_ofList, List.append_assoc]

end Extraction

/-! ## What is taken out -/

/-- Regions at which a text can be cut one after the other. -/
structure Separable (cs : List Char) (regions : List Region) : Prop where
  /-- No region is empty, and each ends before the next one begins. -/
  ascending : Span.Ascending (regions.map Region.span)
  /-- No region begins or ends inside a character. -/
  boundaries : ∀ region ∈ regions,
    Text.IsBoundary cs region.span.start ∧ Text.IsBoundary cs region.span.stop

theorem separable_protectedRegions (source : String) :
    Separable source.toList (protectedRegions source) where
  ascending := protectedRegions_ascending source
  boundaries _ member := isBoundary_of_mem_protectedRegions member

/-- The first region is taken out of the text between its two ends, and the others out of the text behind it. `front` is the
    text up to where the previous region ended. -/
theorem Separable.takeOut_cons {region : Region} {regions : List Region} {front cs : List Char}
    (separable : Separable (front ++ cs) (region :: regions)) (past : Text.byteLength front ≤ region.span.start)
    (opening closing : Char) (index : Nat) :
    ∃ before source after, cs = before ++ (source ++ after) ∧
      Text.byteLength (front ++ before) = region.span.start ∧
      Text.byteLength (front ++ before ++ source) = region.span.stop ∧
      takeOut opening closing (region :: regions) (Text.byteLength front) index cs =
        (before ++ tokenChars opening closing index ++
          (takeOut opening closing regions (Text.byteLength (front ++ before ++ source)) (index + 1) after).1,
        ⟨region.kind, String.ofList source, String.ofList (tokenChars opening closing index)⟩ ::
          (takeOut opening closing regions (Text.byteLength (front ++ before ++ source)) (index + 1) after).2) := by
  obtain ⟨starts, stops⟩ := separable.boundaries region List.mem_cons_self
  have forward := separable.ascending.forward region.span (by simp)
  obtain ⟨before, rest, rfl, toStart⟩ := starts.after past
  rw [← List.append_assoc] at stops
  have beforeStop : Text.byteLength (front ++ before) ≤ region.span.stop := by
    rw [Text.byteLength_append]
    omega
  obtain ⟨source, after, rfl, toStop⟩ := stops.after beforeStop
  rw [Text.byteLength_append] at toStop
  have sourceLength : region.span.stop - region.span.start = Text.byteLength source := by omega
  have whole : Text.byteLength (front ++ before ++ source) = region.span.stop := by
    simp only [Text.byteLength_append]
    omega
  refine ⟨before, source, after, rfl, ?_, whole, ?_⟩
  · rw [Text.byteLength_append]
    omega
  · simp only [takeOut, toStart.symm, Text.cut_of_byteLength, sourceLength, whole]

theorem Separable.tail {cs : List Char} {region : Region} {regions : List Region}
    (separable : Separable cs (region :: regions)) :
    Separable cs regions ∧ ∀ next ∈ regions, region.span.stop ≤ next.span.start := by
  obtain ⟨apart, others⟩ := List.pairwise_cons.mp separable.ascending.apart
  refine ⟨⟨⟨fun span member => separable.ascending.forward span (List.mem_cons_of_mem _ member), others⟩, ?_⟩, ?_⟩
  · exact fun next member => separable.boundaries next (List.mem_cons_of_mem _ member)
  · exact fun next member => apart next.span (List.mem_map_of_mem member)

/-- A fragment is what stands in the text between the two ends of its region. `front` is the text up to
    where the previous region ended. -/
theorem sources_takeOut {opening closing : Char} {regions : List Region} {front cs : List Char}
    (index : Nat) (separable : Separable (front ++ cs) regions)
    (past : ∀ region ∈ regions, Text.byteLength front ≤ region.span.start) :
    (takeOut opening closing regions (Text.byteLength front) index cs).2.map Fragment.source =
      regions.map fun region =>
        String.ofList (Text.slice region.span.start region.span.stop (front ++ cs)) := by
  induction regions generalizing front cs index with
  | nil => rfl
  | cons region regions ih =>
    obtain ⟨before, source, after, rfl, starts, stops, taken⟩ :=
      separable.takeOut_cons (past region List.mem_cons_self) opening closing index
    obtain ⟨others, later⟩ := separable.tail
    rw [← stops] at later
    have atStart : Text.cut region.span.start (front ++ (before ++ (source ++ after))) =
        (front ++ before, source ++ after) := by
      rw [← starts, ← List.append_assoc, Text.cut_of_byteLength]
    have sourceLength : region.span.stop - region.span.start = Text.byteLength source := by
      rw [← stops, ← starts, Text.byteLength_append, Nat.add_sub_cancel_left]
    simp only [← List.append_assoc] at others
    rw [taken, List.map_cons, List.map_cons, ih (index + 1) (by simpa using others) later]
    simp only [Text.slice, atStart, sourceLength, Text.cut_of_byteLength, List.append_assoc]

/-! ## An extraction -/

theorem ofText_of_no_sentinels {source : String} (missing : freshSentinels? source.toList = none) :
    Extraction.ofText source =
      { text := source, fragments := [], opening := '\ue000', closing := '\ue001' } := by
  unfold Extraction.ofText
  simp only [missing]

theorem ofText_of_sentinels {source : String} {opening closing : Char}
    (found : freshSentinels? source.toList = some (opening, closing)) :
    Extraction.ofText source =
      { text := String.ofList (takeOut opening closing (protectedRegions source) 0 0 source.toList).1
        fragments := (takeOut opening closing (protectedRegions source) 0 0 source.toList).2
        opening
        closing } := by
  unfold Extraction.ofText
  simp only [found]

/-- An extraction loses nothing: with its fragments put back, the text is the document again, whatever the
    document holds. The regions can be taken out at all because the document can be cut at their ends. When
    the document holds a character of every pair of sentinels, it stays as it is. -/
theorem unmask_text_ofText (source : String) :
    (Extraction.ofText source).unmask (Extraction.ofText source).text = source ∧
      Separable source.toList (protectedRegions source) ∧
      ((∀ pair ∈ sentinelPairs, pair.1 ∈ source.toList ∨ pair.2 ∈ source.toList) →
        (Extraction.ofText source).fragments = [] ∧ (Extraction.ofText source).text = source) := by
  refine ⟨?_, separable_protectedRegions source, fun taken => ?_⟩
  · rw [Extraction.unmask]
    cases found : freshSentinels? source.toList with
    | none =>
      rw [ofText_of_no_sentinels found, Extraction.unmaskChars_of_no_fragments rfl,
        String.ofList_toList]
    | some pair =>
      have sentinels := sentinels_of_freshSentinels? found
      rw [ofText_of_sentinels found, String.toList_ofList,
        Extraction.unmaskChars_takeOut sentinels.closing_not_digit (protectedRegions source) 0 0 _
          sentinels.openingFresh rfl,
        String.ofList_toList]
  · rw [ofText_of_no_sentinels (freshSentinels?_eq_none.mpr taken)]
    exact ⟨rfl, rfl⟩

/-- A formula is left where it stands when every sentinel that could begin a token is in use. -/
theorem formula_stays_without_sentinels :
    (Extraction.ofText (String.ofList ("$x$".toList ++ sentinelPairs.map Prod.fst))).fragments = [] ∧
      (Extraction.ofText (String.ofList ("$x$".toList ++ sentinelPairs.map Prod.fst))).text =
        String.ofList ("$x$".toList ++ sentinelPairs.map Prod.fst) :=
  (unmask_text_ofText _).2.2 fun _ listed => by
    rw [String.toList_ofList]
    exact Or.inl (List.mem_append_right _ (List.mem_map_of_mem listed))

end Galley.Source
