import Galley.Proofs.Source.Fragments

/-!
# Where code and protected regions meet

A marker and a formula in the line stay clear of code. A display formula begins and ends outside of code, but
the search for its end leaps over code, so that whole zones can lie between its delimiters.

* `begins_of_mem_codeZones` — code begins with a line or with a backtick;
* `InlineFrom.clear` — markers and formulas in the line overlap no code;
* `BlocksFrom.apart_or_encloses` — a display formula overlaps no code, or has all of it between its delimiters;
* `code_is_apart_or_enclosed` — so it is for all fragments of a document.
-/

namespace Galley.Source

variable {bytes : Array UInt8} {zones spans : List Span} {pos : Nat}

/-! ## Where code begins -/

/-- A code span begins with a backtick. -/
theorem backtick_of_mem_codeSpansFrom {fences : Array Span} {blanks : List Nat} {span : Span}
    (member : span ∈ codeSpansFrom bytes fences blanks pos) : bytes[span.start]? = some backtickByte := by
  fun_induction codeSpansFrom bytes fences blanks pos with
  | case1 pos inside fence covered forward ih => exact ih member
  | case2 => cases member
  | case3 pos inside uncovered isSlash ih => exact ih member
  | case4 pos inside uncovered noSlash isTick run positive from' nextFence nextBlank close closes ih =>
    rcases List.mem_cons.mp member with rfl | later
    · exact isTick
    · split at later
      next forward => exact ih forward later
      next => cases later
  | case5 pos inside uncovered noSlash isTick run positive from' nextFence nextBlank unclosed ih => exact ih member
  | case6 pos inside uncovered noSlash noTick ih => exact ih member
  | case7 => cases member

/-- A place where code can begin. -/
def CodeStart (bytes : Array UInt8) (pos : Nat) : Prop :=
  IsLineStart bytes pos ∨ bytes[pos]? = some backtickByte

theorem begins_of_mem_codeZones {text : String} {zone : Span} (member : zone ∈ codeZones text) :
    CodeStart (Text.bytes text) zone.start := by
  rcases mem_codeZones.mp member with code | fence
  · exact Or.inr (backtick_of_mem_codeSpansFrom code)
  · exact Or.inl (isLineStart_of_mem_fencedZones fence)

/-- Code begins neither with nor directly behind a byte that is no backtick and no line feed. -/
theorem CodeStart.ne {zone : Span} (begins : CodeStart bytes zone.start) {first second : UInt8}
    (here : bytes[pos]? = some first) (next : bytes[pos + 1]? = some second) (noFeed : first ≠ newlineByte)
    (noTick : second ≠ backtickByte) : zone.start ≠ pos + 1 := by
  intro same
  rw [same] at begins
  rcases begins with (zero | feed) | tick
  · cases zero
  · rw [Nat.add_sub_cancel, here] at feed
    exact noFeed (Option.some.inj feed)
  · rw [next] at tick
    exact noTick (Option.some.inj tick)

/-! ## Markers and formulas in the line -/

/-- A span all of whose places lie outside of a zone does not overlap it. -/
theorem Span.apart_of_outside {span zone : Span} (forward : span.start < span.stop)
    (forward' : zone.start < zone.stop)
    (outside : ∀ q, span.start ≤ q → q < span.stop → ¬ (zone.start ≤ q ∧ q < zone.stop)) : span.Apart zone := by
  by_contra overlap
  unfold Span.Apart at overlap
  exact outside (max span.start zone.start) (by omega) (by omega) ⟨by omega, by omega⟩

/-- A region of the second pass is a marker or a formula, and no span covers its first byte. -/
theorem InlineFrom.found {found : List Region} {region : Region} (read : InlineFrom bytes spans pos found)
    (member : region ∈ found) :
    Outside spans region.span.start ∧
      ((∃ marker ∈ markerTexts, region.span.stop = region.span.start + marker.length ∧
          MarkerAt bytes region.span.start marker) ∨
        ∃ close, region.span.stop = close + 1 ∧ FormulaAt bytes spans region.span.start close) := by
  induction read with
  | covered _ _ _ ih | other _ _ _ _ _ ih => exact ih member
  | marker outside listed found _ ih =>
    rcases List.mem_cons.mp member with rfl | later
    · exact ⟨outside, Or.inl ⟨_, listed, rfl, found⟩⟩
    · exact ih later
  | formula outside found _ ih =>
    rcases List.mem_cons.mp member with rfl | later
    · exact ⟨outside, Or.inr ⟨_, rfl, found⟩⟩
    · exact ih later
  | done => cases member

/-- No byte of a marker is a line feed or a backtick. -/
theorem MarkerAt.plain {marker : String} (listed : marker ∈ markerTexts) (found : MarkerAt bytes pos marker)
    {i : Nat} (inside : i < marker.length) :
    ∃ b, bytes[pos + i]? = some b ∧ b ≠ newlineByte ∧ b ≠ backtickByte := by
  rw [← String.length_toList] at inside
  obtain ⟨b, here, same⟩ := found i _ (List.getElem?_eq_getElem inside)
  have letter := (markerTexts_bytes listed).2.2 _ (List.getElem_mem inside)
  rw [← same] at letter
  refine ⟨b, here, ?_, ?_⟩
  · rintro rfl
    exact absurd letter (by decide)
  · rintro rfl
    exact absurd letter (by decide)

theorem MarkerAt.clear {marker : String} (listed : marker ∈ markerTexts) (found : MarkerAt bytes pos marker)
    (outside : Outside zones pos) {zone : Span} (member : zone ∈ zones) (begins : CodeStart bytes zone.start) :
    Span.Apart ⟨pos, pos + marker.length⟩ zone := by
  have before := outside zone member
  -- Code that begins behind the first byte of the marker would begin at one of its letters.
  have notInside : ¬ (pos < zone.start ∧ zone.start < pos + marker.length) := by
    rintro ⟨after, upTo⟩
    obtain ⟨i, same⟩ := Nat.exists_eq_add_of_lt after
    obtain ⟨first, here, noFeed, -⟩ := found.plain listed (show i < marker.length by omega)
    obtain ⟨second, next, -, noTick⟩ := found.plain listed (show i + 1 < marker.length by omega)
    exact begins.ne here next noFeed noTick same
  unfold Span.Apart
  simp only
  omega

/-- Markers and formulas in the line overlap no code. -/
theorem InlineFrom.clear {found : List Region} {region : Region} (read : InlineFrom bytes spans pos found)
    (member : region ∈ found) {zone : Span} (listed : zone ∈ spans) (forward : zone.start < zone.stop)
    (begins : CodeStart bytes zone.start) : region.span.Apart zone := by
  obtain ⟨outside, ⟨marker, known, stop, text⟩ | ⟨close, stop, formula⟩⟩ := read.found member
  · have clear := text.clear known outside listed begins
    rwa [← stop] at clear
  · have body := formula.body
    refine Span.apart_of_outside (by omega) forward fun q after before => ?_
    rcases Nat.eq_or_lt_of_le after with rfl | later
    · exact outside zone listed
    · exact formula.outside q later (by omega) zone listed

/-! ## Display formulas -/

/-- Code lies between the delimiters of a display formula. -/
structure Span.Encloses (formula zone : Span) : Prop where
  behindOpening : formula.start + 2 ≤ zone.start
  beforeClosing : zone.stop + 2 ≤ formula.stop

/-- Code does not begin between the two dollar signs of a delimiter. -/
theorem BlockDelimiter.ne (delimiter : BlockDelimiter bytes zones pos) {zone : Span}
    (begins : CodeStart bytes zone.start) : zone.start ≠ pos + 1 :=
  begins.ne delimiter.dollar.dollar delimiter.second (by decide) (by decide)

/-- A display formula overlaps no code, or has all of it between its delimiters. -/
theorem BlocksFrom.apart_or_encloses {found : List Span} {formula : Span} (read : BlocksFrom bytes zones pos found)
    (member : formula ∈ found) {zone : Span} (listed : zone ∈ zones) (begins : CodeStart bytes zone.start) :
    formula.Apart zone ∨ formula.Encloses zone := by
  obtain ⟨close, stop, apart, opens, closes⟩ := read.delimiters member
  have notAtOpening := opens.outside zone listed
  have notAtClosing := closes.outside zone listed
  have behindFirst := opens.ne begins
  have behindThird := closes.ne begins
  by_cases before : zone.stop ≤ formula.start ∨ formula.stop ≤ zone.start
  · exact Or.inl before.symm
  · exact Or.inr ⟨by omega, by omega⟩

/-! ## Fragments -/

/-- The fragments of a document are its protected regions, or none. Whole zones can stand between the delimiters
    of a display formula; no other region touches code, and none holds only a part of a zone. -/
theorem code_is_apart_or_enclosed (source : String) :
    ((Extraction.ofText source).fragments = [] ∨
      (Extraction.ofText source).fragments.map Fragment.written =
        (protectedRegions source).map (Region.written source)) ∧
    ∀ region ∈ protectedRegions source, ∀ zone ∈ codeZones source,
      region.span.Apart zone ∨ (region.kind = .mathBlock ∧ region.span.Encloses zone) := by
  refine ⟨?_, fun region member zone listed => ?_⟩
  · cases found : freshSentinels? source.toList with
    | none => exact Or.inl (by rw [ofText_of_no_sentinels found])
    | some pair => exact Or.inr (written_ofText found)
  · have begins := begins_of_mem_codeZones listed
    have forward := (codeZones_ascending source).forward zone listed
    obtain ⟨blocks, inline, first, second, same, -⟩ := protects_iff.mpr (Eq.refl (protectedRegions source))
    rcases List.mem_append.mp (same.mem_iff.mp member) with block | other
    · obtain ⟨formula, known, rfl⟩ := List.mem_map.mp block
      exact (first.apart_or_encloses known listed begins).imp_right fun encloses => ⟨rfl, encloses⟩
    · exact Or.inl (second.clear other (List.mem_append_left _ listed) forward begins)

/-- The code span between two pairs of dollar signs is a zone, and a fragment holds it. -/
theorem display_formula_encloses_code :
    let source := "$$`x`$$"
    ⟨2, 5⟩ ∈ codeZones source ∧ protectedRegions source = [⟨⟨0, 7⟩, .mathBlock⟩] ∧
      (Extraction.ofText source).fragments.map Fragment.written = [(.mathBlock, source)] := by
  decide +kernel

end Galley.Source
