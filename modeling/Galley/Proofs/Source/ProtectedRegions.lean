import Galley.Proofs.Source.Boundary
import Galley.Proofs.Source.Lookup
import Galley.Source.Regions

/-!
# Protected regions are apart

The two scanners look for delimiters byte by byte and know of each other's finds only through lookups.
Their regions nevertheless follow each other without overlap, and no region begins or ends inside a
character.

* `protectedRegions_ascending` — the regions are not empty, ascending and apart;
* `isBoundary_of_mem_protectedRegions` — they begin and end between characters.
-/

namespace Galley.Source

open Galley.Text (IsBoundary)

variable {bytes : Array UInt8} {zones blocks : Array Span} {pos : Nat}

/-! ## Delimiters -/

theorem getElem?_of_isDollarAt (h : isDollarAt bytes pos = true) : bytes[pos]? = some dollarByte := by
  simp only [isDollarAt, Bool.and_eq_true, beq_iff_eq] at h
  exact h.1

theorem isBlockDelimiterAt_of_nextBlockDelimiter? {found : Nat}
    (h : nextBlockDelimiter? bytes zones pos = some found) :
    isBlockDelimiterAt bytes found = true ∧ spanAt? zones found = none := by
  fun_induction nextBlockDelimiter? bytes zones pos with
  | case1 pos inside zone covered further ih => exact ih h
  | case2 => simp at h
  | case3 pos inside uncovered isDelimiter =>
    simp only [Option.some.injEq] at h
    subst h
    exact ⟨isDelimiter, uncovered⟩
  | case4 pos inside uncovered isDelimiter ih => exact ih h
  | case5 => simp at h

/-- The first and the last byte of a region are ASCII, and the last one is not in front of the first. -/
structure Span.Delimited (bytes : Array UInt8) (span : Span) : Prop where
  forward : span.start < span.stop
  opened : ∃ b, bytes[span.start]? = some b ∧ b.toNat < 128
  closed : ∃ b, bytes[span.stop - 1]? = some b ∧ b.toNat < 128

/-- An ASCII byte is a whole character, so such a region cuts none. -/
theorem Span.Delimited.boundaries {text : String} {span : Span} (delimited : span.Delimited (Text.bytes text)) :
    IsBoundary text.toList span.start ∧ IsBoundary text.toList span.stop := by
  obtain ⟨b, opened, ascii⟩ := delimited.opened
  obtain ⟨b', closed, ascii'⟩ := delimited.closed
  have ends := Text.isBoundary_succ_of_ascii closed ascii'
  rw [Nat.sub_add_cancel (by have := delimited.forward; omega)] at ends
  exact ⟨Text.isBoundary_of_ascii opened ascii, ends⟩

theorem dollarByte_ascii : dollarByte.toNat < 128 := by decide

/-! ## Display formulas -/

theorem delimited_of_mem_blockRegionsFrom {span : Span} (member : span ∈ blockRegionsFrom bytes zones pos) :
    pos ≤ span.start ∧ bytes[span.start]? = some dollarByte ∧ span.Delimited bytes := by
  fun_induction blockRegionsFrom bytes zones pos with
  | case1 => simp at member
  | case2 => simp at member
  | case3 pos start hstart close hclose hle hle' ih =>
    rcases List.mem_cons.mp member with rfl | later
    · obtain ⟨opening, _⟩ := isBlockDelimiterAt_of_nextBlockDelimiter? hstart
      obtain ⟨closing, _⟩ := isBlockDelimiterAt_of_nextBlockDelimiter? hclose
      simp only [isBlockDelimiterAt, Bool.and_eq_true, beq_iff_eq] at opening closing
      have dollar := getElem?_of_isDollarAt opening.1
      refine ⟨hle.1, dollar, by simp only; omega, ⟨_, dollar, dollarByte_ascii⟩, ?_⟩
      exact ⟨_, closing.2, dollarByte_ascii⟩
    · obtain ⟨after, delimited⟩ := ih later
      exact ⟨by omega, delimited⟩

theorem blockRegionsFrom_apart :
    (blockRegionsFrom bytes zones pos).Pairwise fun a b => a.stop ≤ b.start := by
  fun_induction blockRegionsFrom bytes zones pos with
  | case1 => exact List.Pairwise.nil
  | case2 => exact List.Pairwise.nil
  | case3 pos start hstart close hclose hle hle' ih =>
    refine List.Pairwise.cons (fun span member => ?_) ih
    exact (delimited_of_mem_blockRegionsFrom member).1

theorem blockRegions_ascending (text : String) (zones : List Span) :
    Span.Ascending (blockRegions text zones) where
  forward _ member := (delimited_of_mem_blockRegionsFrom member).2.2.forward
  apart := blockRegionsFrom_apart

/-! ## Formulas in the line and markers -/

/-- The dollar sign that ends a formula in the line is the last byte, and nothing in the formula lies in
    a zone or in a display formula. -/
theorem inlineStop?_spec {start stop : Nat} (h : inlineStop? bytes zones blocks start pos = some stop) :
    pos < stop ∧ isDollarAt bytes (stop - 1) = true ∧
      ∀ q, pos ≤ q → q < stop → occupiedAt? zones blocks q = none := by
  fun_induction inlineStop? bytes zones blocks start pos with
  | case1 => simp at h
  | case2 => simp at h
  | case3 pos b hb free isDollar body =>
    simp only [Option.some.injEq] at h
    subst h
    refine ⟨by omega, by simpa using isDollar, fun q from_ before => ?_⟩
    have same : q = pos := by omega
    rw [same]
    exact Option.not_isSome_iff_eq_none.mp (not_or.mp free).2
  | case4 => simp at h
  | case5 pos b hb free notDollar inside ih =>
    obtain ⟨before, closing, rest⟩ := ih h
    refine ⟨by omega, closing, fun q from_ upTo => ?_⟩
    rcases Nat.eq_or_lt_of_le from_ with same | later
    · rw [← same]
      exact Option.not_isSome_iff_eq_none.mp (not_or.mp free).2
    · exact rest q later upTo

theorem contentsMarkers_eq : contentsMarkers =
    [[0x5b, 0x5b, 0x74, 0x6f, 0x63, 0x5d, 0x5d], [0x5b, 0x74, 0x6f, 0x63, 0x5d]] := by
  decide

theorem toNat_of_lowerByte_eq {b m : UInt8} (same : Text.lowerByte b = m) :
    b = m ∨ (b.toNat ≤ 90 ∧ b.toNat + 32 = m.toNat) := by
  unfold Text.lowerByte at same
  split at same
  · rename_i capital
    simp only [Bool.and_eq_true, decide_eq_true_eq, UInt8.le_iff_toNat_le] at capital
    have bound : b.toNat ≤ 90 := capital.2
    refine Or.inr ⟨bound, ?_⟩
    rw [← same, UInt8.toNat_add]
    exact (Nat.mod_eq_of_lt (by change b.toNat + 32 < 256; omega)).symm
  · exact Or.inl same

/-- The bytes of a marker are brackets and letters. -/
theorem markerByte_spec {marker : List UInt8} (known : marker ∈ contentsMarkers) {m b : UInt8}
    (member : m ∈ marker) (same : Text.lowerByte b = Text.lowerByte m) :
    b.toNat < 128 ∧ b ≠ dollarByte := by
  have plain : (contentsMarkers.flatten.all fun m =>
      decide ((Text.lowerByte m).toNat < 128 ∧ 68 < (Text.lowerByte m).toNat)) = true := by
    rw [contentsMarkers_eq]
    decide
  have here := List.all_eq_true.mp plain m (List.mem_flatten.mpr ⟨marker, known, member⟩)
  obtain ⟨below, above⟩ := of_decide_eq_true here
  have notDollar : ∀ n, b.toNat = n → n ≠ 36 → b ≠ dollarByte := by
    rintro n value other rfl
    exact other value.symm
  rcases toNat_of_lowerByte_eq same with rfl | ⟨capital, shifted⟩
  · exact ⟨below, notDollar _ rfl (by omega)⟩
  · exact ⟨by omega, notDollar _ rfl (by omega)⟩

/-- A marker is found where its bytes stand, case aside. -/
theorem contentsMarkerLength?_spec {length : Nat} (h : contentsMarkerLength? bytes pos = some length) :
    0 < length ∧ ∀ q, pos ≤ q → q < pos + length →
      ∃ b, bytes[q]? = some b ∧ b.toNat < 128 ∧ b ≠ dollarByte := by
  simp only [contentsMarkerLength?, Option.map_eq_some_iff] at h
  obtain ⟨marker, found, rfl⟩ := h
  have known := List.mem_of_find?_eq_some found
  have starts := List.find?_some found
  simp only [Caret.startsWithIgnoringCase, Caret.take?] at starts
  split at starts
  · rename_i taken htaken
    split at htaken
    · rename_i inside
      simp only [Option.some.injEq] at htaken
      subst htaken
      rw [beq_iff_eq] at starts
      have positive : 0 < marker.length := by
        rw [contentsMarkers_eq] at known
        simp only [List.mem_cons, List.not_mem_nil, or_false] at known
        rcases known with rfl | rfl <;> decide
      refine ⟨positive, fun q after before => ?_⟩
      have bound : q < bytes.size := by omega
      have place : q - pos < marker.length := by omega
      have same := congrArg (fun list => list[q - pos]?) starts
      have within : q - pos < min (pos + marker.length) bytes.size - pos := by omega
      simp only [List.getElem?_map, Array.getElem?_toList, Array.getElem?_extract_of_lt within,
        Nat.add_sub_cancel' after, List.getElem?_eq_getElem place, Option.map_some,
        Option.some.injEq] at same
      refine ⟨_, Array.getElem?_eq_getElem bound, ?_⟩
      exact markerByte_spec known (List.getElem_mem place) same
    · simp at htaken
  · simp at starts

/-- A region of the second pass: it has its delimiters, begins outside the display formulas, and holds
    no place where one could begin. -/
structure Region.Free (bytes : Array UInt8) (blocks : Array Span) (region : Region) : Prop where
  delimited : region.span.Delimited bytes
  uncovered : spanAt? blocks region.span.start = none
  within : ∀ q, region.span.start < q → q < region.span.stop →
    spanAt? blocks q = none ∨ bytes[q]? ≠ some dollarByte

theorem spanAt?_of_occupiedAt?_eq_none (h : occupiedAt? zones blocks pos = none) :
    spanAt? blocks pos = none := by
  unfold occupiedAt? at h
  cases found : spanAt? zones pos with
  | none => simpa [found] using h
  | some span => simp [found] at h

theorem free_of_mem_inlineRegionsFrom {region : Region}
    (member : region ∈ inlineRegionsFrom bytes zones blocks pos) :
    pos ≤ region.span.start ∧ region.Free bytes blocks := by
  fun_induction inlineRegionsFrom bytes zones blocks pos with
  | case1 pos inside span covered forward ih =>
    obtain ⟨after, free⟩ := ih member
    exact ⟨by omega, free⟩
  | case2 => simp at member
  | case3 pos inside uncovered length marker ih =>
    obtain ⟨positive, letters⟩ := contentsMarkerLength?_spec marker
    rcases List.mem_cons.mp member with rfl | later
    · refine ⟨Nat.le_refl _, ⟨by simp only; omega, ?_, ?_⟩, ?_, ?_⟩
      · obtain ⟨b, found, ascii, _⟩ := letters pos (Nat.le_refl _) (by omega)
        exact ⟨b, found, ascii⟩
      · obtain ⟨b, found, ascii, _⟩ := letters (pos + length - 1) (by omega) (by omega)
        exact ⟨b, found, ascii⟩
      · exact spanAt?_of_occupiedAt?_eq_none uncovered
      · intro q after before
        obtain ⟨b, found, _, notDollar⟩ := letters q (Nat.le_of_lt after) before
        refine Or.inr ?_
        rw [found]
        exact fun equal => notDollar (Option.some.inj equal)
    · obtain ⟨after, free⟩ := ih later
      exact ⟨by omega, free⟩
  | case4 pos inside uncovered noMarker isDollar stop closes ih =>
    obtain ⟨before, closing, rest⟩ := inlineStop?_spec closes
    rcases List.mem_cons.mp member with rfl | later
    · refine ⟨Nat.le_refl _, ⟨by simp only; omega, ?_, ?_⟩, ?_, ?_⟩
      · exact ⟨_, getElem?_of_isDollarAt isDollar, dollarByte_ascii⟩
      · exact ⟨_, getElem?_of_isDollarAt closing, dollarByte_ascii⟩
      · exact spanAt?_of_occupiedAt?_eq_none uncovered
      · intro q after upTo
        exact Or.inl (spanAt?_of_occupiedAt?_eq_none (rest q after upTo))
    · rw [if_pos (by omega)] at later
      obtain ⟨after, free⟩ := ih (by omega) later
      exact ⟨by omega, free⟩
  | case5 pos inside uncovered noMarker isDollar unclosed ih =>
    obtain ⟨after, free⟩ := ih member
    exact ⟨by omega, free⟩
  | case6 pos inside uncovered noMarker noDollar ih =>
    obtain ⟨after, free⟩ := ih member
    exact ⟨by omega, free⟩
  | case7 => simp at member

theorem inlineRegionsFrom_apart :
    (inlineRegionsFrom bytes zones blocks pos).Pairwise fun a b => a.span.stop ≤ b.span.start := by
  fun_induction inlineRegionsFrom bytes zones blocks pos with
  | case1 pos inside span covered forward ih => exact ih
  | case2 => exact List.Pairwise.nil
  | case3 pos inside uncovered length marker ih =>
    refine List.Pairwise.cons (fun region member => ?_) ih
    have after := (free_of_mem_inlineRegionsFrom member).1
    simp only
    omega
  | case4 pos inside uncovered noMarker isDollar stop closes ih =>
    obtain ⟨before, _, _⟩ := inlineStop?_spec closes
    rw [if_pos (by omega)]
    refine List.Pairwise.cons (fun region member => ?_) (ih (by omega))
    exact (free_of_mem_inlineRegionsFrom member).1
  | case5 pos inside uncovered noMarker isDollar unclosed ih => exact ih
  | case6 pos inside uncovered noMarker noDollar ih => exact ih
  | case7 => exact List.Pairwise.nil

/-! ## Both passes together -/

/-- Two regions do not overlap, whichever comes first. -/
def Region.Apart (a b : Region) : Prop := a.span.stop ≤ b.span.start ∨ b.span.stop ≤ a.span.start

/-- A region of the second pass does not overlap a display formula: none covers its first byte, and none
    begins after that, where there is no free dollar sign. -/
theorem apart_of_free {text : String} {zones : List Span} {region : Region} {block : Span}
    (free : region.Free (Text.bytes text) (blockRegions text zones).toArray)
    (member : block ∈ blockRegions text zones) :
    block.stop ≤ region.span.start ∨ region.span.stop ≤ block.start := by
  have ascending := blockRegions_ascending text zones
  have outside := not_covers_of_spanAt?_eq_none ascending free.uncovered member
  have forward := ascending.forward block member
  simp only [Span.covers, Bool.and_eq_false_imp, decide_eq_true_eq, decide_eq_false_iff_not] at outside
  rcases Nat.lt_or_ge region.span.start block.start with later | notLater
  · rcases Nat.lt_or_ge block.start region.span.stop with inside | behind
    · rcases free.within block.start later inside with uncovered | notDollar
      · have begins := not_covers_of_spanAt?_eq_none ascending uncovered member
        simp [Span.covers, forward] at begins
      · exact absurd (delimited_of_mem_blockRegionsFrom member).2.1 notDollar
    · exact Or.inr behind
  · have := outside notLater
    exact Or.inl (by omega)

/-- What holds of the regions of both passes holds of the protected regions, whose order alone is
    another. -/
theorem mem_protectedRegions {text : String} {region : Region} :
    region ∈ protectedRegions text ↔
      (∃ block ∈ blockRegions text (codeZones text), ⟨block, .mathBlock⟩ = region) ∨
        region ∈ inlineRegions text (codeZones text) (blockRegions text (codeZones text)) := by
  unfold protectedRegions
  rw [(List.mergeSort_perm _ _).mem_iff, List.mem_append, List.mem_map]

theorem delimited_of_mem_protectedRegions {text : String} {region : Region}
    (member : region ∈ protectedRegions text) : region.span.Delimited (Text.bytes text) := by
  rcases mem_protectedRegions.mp member with ⟨block, hblock, rfl⟩ | inline
  · exact (delimited_of_mem_blockRegionsFrom hblock).2.2
  · exact (free_of_mem_inlineRegionsFrom inline).2.delimited

theorem protectedRegions_pairwise_apart (text : String) :
    (protectedRegions text).Pairwise Region.Apart := by
  have symmetric : ∀ {a b : Region}, a.Apart b → b.Apart a := fun h => h.symm
  unfold protectedRegions
  refine ((List.mergeSort_perm _ _).pairwise_iff symmetric).mpr (List.pairwise_append.mpr ⟨?_, ?_, ?_⟩)
  · rw [List.pairwise_map]
    exact (blockRegions_ascending text _).apart.imp Or.inl
  · exact inlineRegionsFrom_apart.imp Or.inl
  · intro a ha b hb
    obtain ⟨block, hblock, rfl⟩ := List.mem_map.mp ha
    exact apart_of_free (free_of_mem_inlineRegionsFrom hb).2 hblock

theorem protectedRegions_sorted (text : String) :
    (protectedRegions text).Pairwise fun a b => a.span.start ≤ b.span.start := by
  have sorted := @List.pairwise_mergeSort _ Region.le
    (fun a b c => by simp only [Region.le, decide_eq_true_eq]; omega)
    (fun a b => by simp only [Region.le, Bool.or_eq_true, decide_eq_true_eq]; omega)
  exact (sorted _).imp (by simp [Region.le])

/-- The protected regions are not empty, and each ends before the next one begins. -/
theorem protectedRegions_ascending (text : String) :
    Span.Ascending ((protectedRegions text).map Region.span) where
  forward span member := by
    obtain ⟨region, hregion, rfl⟩ := List.mem_map.mp member
    exact (delimited_of_mem_protectedRegions hregion).forward
  apart := by
    rw [List.pairwise_map]
    have both := (protectedRegions_sorted text).and (protectedRegions_pairwise_apart text)
    refine both.imp_of_mem fun {a b} _ hb ⟨order, apart⟩ => ?_
    have forward := (delimited_of_mem_protectedRegions hb).forward
    rcases apart with before | behind <;> omega

/-- No protected region begins or ends inside a character. -/
theorem isBoundary_of_mem_protectedRegions {text : String} {region : Region}
    (member : region ∈ protectedRegions text) :
    IsBoundary text.toList region.span.start ∧ IsBoundary text.toList region.span.stop :=
  (delimited_of_mem_protectedRegions member).boundaries

end Galley.Source
