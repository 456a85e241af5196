import Galley.Proofs.Source.ProtectedRegions
import Galley.Proofs.Source.Zones

/-!
# The grammar of protected regions

What the two scanners find, said without them: by the places that they look for, one after the other. The
scanners leap over zones and display formulas, and look them up by bisection; the grammar goes from place to
place and asks whether some span covers it.

* `BlockDelimiter`, `BlocksFrom` — display formulas from a place on;
* `MarkerAt`, `FormulaAt`, `InlineFrom` — markers and formulas in the line from a place on;
* `Protects` — the regions of both;
* `blocksFrom_iff`, `inlineFrom_iff` — the scanners find them;
* `protects_iff` — so the protected regions are those of the grammar, and no others are.
-/

namespace Galley.Source

variable {bytes : Array UInt8} {zones blocks spans : List Span} {pos : Nat}

/-! ## Places -/

/-- No span covers a place. -/
def Outside (spans : List Span) (pos : Nat) : Prop :=
  ∀ span ∈ spans, ¬ (span.start ≤ pos ∧ pos < span.stop)

/-- A place where a dollar sign stands, and no backslash in front of it. -/
structure DollarAt (bytes : Array UInt8) (pos : Nat) : Prop where
  dollar : bytes[pos]? = some dollarByte
  unescaped : 0 < pos → bytes[pos - 1]? ≠ some backslashByte

/-- A place outside the zones where two dollar signs stand, and no backslash in front of them. -/
structure BlockDelimiter (bytes : Array UInt8) (zones : List Span) (pos : Nat) : Prop where
  outside : Outside zones pos
  dollar : DollarAt bytes pos
  second : bytes[pos + 1]? = some dollarByte

/-- The first place from another one on that is of some kind. -/
structure First (kind : Nat → Prop) (pos found : Nat) : Prop where
  after : pos ≤ found
  holds : kind found
  earliest : ∀ q, pos ≤ q → q < found → ¬ kind q

theorem First.unique {kind : Nat → Prop} {a b : Nat} (first : First kind pos a) (other : First kind pos b) :
    a = b := by
  rcases Nat.lt_trichotomy a b with before | same | behind
  · exact absurd first.holds (other.earliest a first.after before)
  · exact same
  · exact absurd other.holds (first.earliest b other.after behind)

/-- A search from a place on finds the first place of some kind if there is one. -/
structure Finds (kind : Nat → Prop) (pos : Nat) (result : Option Nat) : Prop where
  first : ∀ found, result = some found → First kind pos found
  nowhere : result = none → ∀ q, pos ≤ q → ¬ kind q

namespace Finds

variable {kind : Nat → Prop} {next : Nat} {result : Option Nat}

/-- The search ends here. -/
theorem here (holds : kind pos) : Finds kind pos (some pos) where
  first found h := by
    obtain rfl := Option.some.inj h
    exact ⟨Nat.le_refl _, holds, fun q after before => by omega⟩
  nowhere h := by cases h

/-- The search ends without a find. -/
theorem none (nowhere : ∀ q, pos ≤ q → ¬ kind q) : Finds kind pos .none where
  first found h := by cases h
  nowhere _ := nowhere

/-- The search passes over some places that are not of the kind. -/
theorem leap (finds : Finds kind next result) (forward : pos ≤ next) (passed : ∀ q, pos ≤ q → q < next → ¬ kind q) :
    Finds kind pos result where
  first found h := by
    obtain ⟨after, holds, earliest⟩ := finds.first found h
    refine ⟨by omega, holds, fun q from_ before => ?_⟩
    rcases Nat.lt_or_ge q next with within | past
    · exact passed q from_ within
    · exact earliest q past before
  nowhere h q after := by
    rcases Nat.lt_or_ge q next with within | past
    · exact passed q after within
    · exact finds.nowhere h q past

/-- The search passes over one place. -/
theorem step (finds : Finds kind (pos + 1) result) (passed : ¬ kind pos) : Finds kind pos result :=
  finds.leap (Nat.le_succ _) fun q after before => by
    obtain rfl : q = pos := by omega
    exact passed

end Finds

theorem spanAt?_eq_none_iff (ascending : Span.Ascending spans) :
    spanAt? spans.toArray pos = none ↔ Outside spans pos := by
  rw [spanAt?_eq_find? ascending, List.find?_eq_none]
  simp [Outside, Span.covers]

theorem covers_of_spanAt? (ascending : Span.Ascending spans) {span : Span}
    (found : spanAt? spans.toArray pos = some span) :
    span ∈ spans ∧ span.start ≤ pos ∧ pos < span.stop := by
  rw [spanAt?_eq_find? ascending] at found
  exact ⟨List.mem_of_find?_eq_some found, by simpa [Span.covers] using List.find?_some found⟩

theorem isDollarAt_iff : isDollarAt bytes pos = true ↔ DollarAt bytes pos := by
  have escaped : isEscapedAt bytes pos = false ↔ (0 < pos → bytes[pos - 1]? ≠ some backslashByte) := by
    unfold isEscapedAt Caret.previous?
    by_cases zero : pos = 0 <;> simp [zero, Nat.pos_iff_ne_zero]
  simp only [isDollarAt, Bool.and_eq_true, beq_iff_eq, Bool.not_eq_true', escaped]
  exact ⟨fun both => ⟨both.1, both.2⟩, fun here => ⟨here.dollar, here.unescaped⟩⟩

theorem isBlockDelimiterAt_iff :
    isBlockDelimiterAt bytes pos = true ↔ DollarAt bytes pos ∧ bytes[pos + 1]? = some dollarByte := by
  simp only [isBlockDelimiterAt, Bool.and_eq_true, beq_iff_eq, isDollarAt_iff]

/-! ## Display formulas -/

/-- The display formulas from a place on: each from the first delimiter to the first one at least three bytes
    behind it, until no two such delimiters are left. -/
inductive BlocksFrom (bytes : Array UInt8) (zones : List Span) : Nat → List Span → Prop where
  | block {pos start close : Nat} {rest : List Span} (opens : First (BlockDelimiter bytes zones) pos start)
      (closes : First (BlockDelimiter bytes zones) (start + 3) close)
      (more : BlocksFrom bytes zones (close + 2) rest) : BlocksFrom bytes zones pos (⟨start, close + 2⟩ :: rest)
  | done {pos : Nat} (noPair : ∀ start close, pos ≤ start → start + 3 ≤ close →
      BlockDelimiter bytes zones start → ¬ BlockDelimiter bytes zones close) : BlocksFrom bytes zones pos []

theorem BlocksFrom.unique {found other : List Span} (left : BlocksFrom bytes zones pos found)
    (right : BlocksFrom bytes zones pos other) : found = other := by
  induction left generalizing other with
  | block opens closes more ih =>
    cases right with
    | block opens' closes' more' =>
      obtain rfl := opens.unique opens'
      obtain rfl := closes.unique closes'
      rw [ih more']
    | done noPair =>
      exact absurd closes.holds (noPair _ _ opens.after closes.after opens.holds)
  | done noPair =>
    cases right with
    | block opens closes more =>
      exact absurd closes.holds (noPair _ _ opens.after closes.after opens.holds)
    | done => rfl

/-- The search for a delimiter leaps over the zones, in which there is none. -/
theorem nextBlockDelimiter?_spec (ascending : Span.Ascending zones) :
    Finds (BlockDelimiter bytes zones) pos (nextBlockDelimiter? bytes zones.toArray pos) := by
  fun_induction nextBlockDelimiter? bytes zones.toArray pos with
  | case1 pos inside zone covered further ih =>
    obtain ⟨member, starts, -⟩ := covers_of_spanAt? ascending covered
    exact ih.leap (Nat.le_of_lt further) fun q after before delimiter =>
      delimiter.outside zone member ⟨by omega, before⟩
  | case2 pos inside zone covered stuck =>
    exact absurd (covers_of_spanAt? ascending covered).2.2 stuck
  | case3 pos inside uncovered isDelimiter =>
    obtain ⟨dollar, second⟩ := isBlockDelimiterAt_iff.mp isDelimiter
    exact .here ⟨(spanAt?_eq_none_iff ascending).mp uncovered, dollar, second⟩
  | case4 pos inside uncovered noDelimiter ih =>
    exact ih.step fun delimiter => noDelimiter (isBlockDelimiterAt_iff.mpr ⟨delimiter.dollar, delimiter.second⟩)
  | case5 pos past =>
    refine .none fun q after delimiter => ?_
    have inside := (Array.getElem?_eq_some_iff.mp delimiter.dollar.dollar).1
    omega

theorem blocksFrom_blockRegionsFrom (ascending : Span.Ascending zones) :
    BlocksFrom bytes zones pos (blockRegionsFrom bytes zones.toArray pos) := by
  fun_induction blockRegionsFrom bytes zones.toArray pos with
  | case1 pos missing =>
    exact .done fun start close after _ delimiter =>
      absurd delimiter ((nextBlockDelimiter?_spec ascending).nowhere missing start after)
  | case2 pos start opened missing =>
    have opens := (nextBlockDelimiter?_spec ascending).first _ opened
    refine .done fun other close after behind delimiter => ?_
    -- The first delimiter has no partner, so a later one has none either.
    refine (nextBlockDelimiter?_spec ascending).nowhere missing close ?_
    rcases Nat.lt_or_ge other start with before | notBefore
    · exact absurd delimiter (opens.earliest other after before)
    · omega
  | case3 pos start opened close closed _ _ ih =>
    exact .block ((nextBlockDelimiter?_spec ascending).first _ opened)
      ((nextBlockDelimiter?_spec ascending).first _ closed) ih

/-- The scanner finds the display formulas of the grammar. -/
theorem blocksFrom_iff (ascending : Span.Ascending zones) {found : List Span} :
    BlocksFrom bytes zones pos found ↔ found = blockRegionsFrom bytes zones.toArray pos :=
  ⟨fun read => read.unique (blocksFrom_blockRegionsFrom ascending),
    fun same => same ▸ blocksFrom_blockRegionsFrom ascending⟩

/-! ## Markers and formulas in the line -/

/-- The texts that stand for the table of contents, in small letters. -/
def markerTexts : List String := ["[[toc]]", "[toc]"]

/-- A text stands at a place, in capitals or small letters. -/
def MarkerAt (bytes : Array UInt8) (pos : Nat) (marker : String) : Prop :=
  ∀ i c, marker.toList[i]? = some c → ∃ b, bytes[pos + i]? = some b ∧ (Char.ofNat b.toNat).toLower = c

/-- A formula in the line: it goes to the next dollar sign that no backslash escapes, holds at least one byte,
    and no line end, and no span covers any of it. -/
structure FormulaAt (bytes : Array UInt8) (spans : List Span) (pos close : Nat) : Prop where
  opens : DollarAt bytes pos
  body : pos + 1 < close
  closes : DollarAt bytes close
  next : ∀ q, pos < q → q < close → ¬ DollarAt bytes q
  sameLine : ∀ q, pos < q → q < close → bytes[q]? ≠ some newlineByte
  outside : ∀ q, pos < q → q ≤ close → Outside spans q

/-- The markers and the formulas in the line from a place on, outside of some spans. -/
inductive InlineFrom (bytes : Array UInt8) (spans : List Span) : Nat → List Region → Prop where
  | covered {pos : Nat} {regions : List Region} (inside : pos < bytes.size) (covered : ¬ Outside spans pos)
      (more : InlineFrom bytes spans (pos + 1) regions) : InlineFrom bytes spans pos regions
  | marker {pos : Nat} {regions : List Region} {marker : String} (outside : Outside spans pos)
      (listed : marker ∈ markerTexts) (found : MarkerAt bytes pos marker)
      (more : InlineFrom bytes spans (pos + marker.length) regions) :
      InlineFrom bytes spans pos (⟨⟨pos, pos + marker.length⟩, .contentsMarker⟩ :: regions)
  | formula {pos close : Nat} {regions : List Region} (outside : Outside spans pos)
      (found : FormulaAt bytes spans pos close) (more : InlineFrom bytes spans (close + 1) regions) :
      InlineFrom bytes spans pos (⟨⟨pos, close + 1⟩, .mathInline⟩ :: regions)
  | other {pos : Nat} {regions : List Region} (inside : pos < bytes.size) (outside : Outside spans pos)
      (noMarker : ∀ marker ∈ markerTexts, ¬ MarkerAt bytes pos marker)
      (noFormula : ∀ close, ¬ FormulaAt bytes spans pos close)
      (more : InlineFrom bytes spans (pos + 1) regions) : InlineFrom bytes spans pos regions
  | done {pos : Nat} (past : bytes.size ≤ pos) : InlineFrom bytes spans pos []

theorem FormulaAt.unique {a b : Nat} (first : FormulaAt bytes spans pos a)
    (other : FormulaAt bytes spans pos b) : a = b := by
  have before := first.body
  have before' := other.body
  rcases Nat.lt_trichotomy a b with less | same | more
  · exact absurd first.closes (other.next a (by omega) less)
  · exact same
  · exact absurd other.closes (first.next b (by omega) more)

/-- The two markers differ in their second letters. -/
theorem MarkerAt.unique {a b : String} (ha : a ∈ markerTexts) (hb : b ∈ markerTexts)
    (first : MarkerAt bytes pos a) (other : MarkerAt bytes pos b) : a = b := by
  have conflict (long : MarkerAt bytes pos "[[toc]]") (short : MarkerAt bytes pos "[toc]") : False := by
    obtain ⟨byte, found, bracket⟩ := long 1 '[' (by decide)
    obtain ⟨byte', found', letter⟩ := short 1 't' (by decide)
    obtain rfl := Option.some.inj (found.symm.trans found')
    exact absurd (bracket.symm.trans letter) (by decide)
  simp only [markerTexts, List.mem_cons, List.not_mem_nil, or_false] at ha hb
  rcases ha with rfl | rfl <;> rcases hb with rfl | rfl
  · rfl
  · exact (conflict first other).elim
  · exact (conflict other first).elim
  · rfl

theorem MarkerAt.bracket {marker : String} (listed : marker ∈ markerTexts)
    (found : MarkerAt bytes pos marker) :
    pos < bytes.size ∧ bytes[pos]? ≠ some dollarByte := by
  have starts : marker.toList[0]? = some '[' := by
    simp only [markerTexts, List.mem_cons, List.not_mem_nil, or_false] at listed
    rcases listed with rfl | rfl <;> decide
  obtain ⟨b, here, bracket⟩ := found 0 '[' starts
  refine ⟨(Array.getElem?_eq_some_iff.mp here).1, fun dollar => ?_⟩
  obtain rfl := Option.some.inj (here.symm.trans dollar)
  exact absurd bracket (by decide)

theorem DollarAt.inside (dollar : DollarAt bytes pos) : pos < bytes.size :=
  (Array.getElem?_eq_some_iff.mp dollar.dollar).1

theorem InlineFrom.unique {found other : List Region} (left : InlineFrom bytes spans pos found)
    (right : InlineFrom bytes spans pos other) : found = other := by
  induction left generalizing other with
  | covered inside covered more ih =>
    cases right with
    | covered _ _ more' => exact ih more'
    | marker outside | formula outside | other _ outside => exact absurd outside covered
    | done past => omega
  | marker outside listed found more ih =>
    cases right with
    | covered _ covered => exact absurd outside covered
    | marker _ listed' found' more' =>
      obtain rfl := found.unique listed listed' found'
      rw [ih more']
    | formula _ formula => exact absurd formula.opens.dollar (found.bracket listed).2
    | other _ _ noMarker => exact absurd found (noMarker _ listed)
    | done past => exact absurd (found.bracket listed).1 (by omega)
  | formula outside found more ih =>
    cases right with
    | covered _ covered => exact absurd outside covered
    | marker _ listed marker => exact absurd found.opens.dollar (marker.bracket listed).2
    | formula _ found' more' =>
      obtain rfl := found.unique found'
      rw [ih more']
    | other _ _ _ noFormula => exact absurd found (noFormula _)
    | done past => exact absurd found.opens.inside (by omega)
  | other inside outside noMarker noFormula more ih =>
    cases right with
    | covered _ covered => exact absurd outside covered
    | marker _ listed found => exact absurd found (noMarker _ listed)
    | formula _ found => exact absurd found (noFormula _)
    | other _ _ _ _ more' => exact ih more'
    | done past => omega
  | done past =>
    cases right with
    | covered inside | other inside => omega
    | marker _ listed found => exact absurd (found.bracket listed).1 (by omega)
    | formula _ found => exact absurd found.opens.inside (by omega)
    | done => rfl

/-- From inside a span the grammar goes on behind it. -/
theorem InlineFrom.leap {stop : Nat} {regions : List Region} (forward : pos ≤ stop)
    (covered : ∀ q, pos ≤ q → q < stop → ¬ Outside spans q)
    (more : InlineFrom bytes spans stop regions) : InlineFrom bytes spans pos regions := by
  obtain ⟨gap, rfl⟩ := Nat.exists_eq_add_of_le forward
  induction gap generalizing pos with
  | zero => exact more
  | succ gap ih =>
    have later : InlineFrom bytes spans (pos + 1) regions :=
      ih (by omega) (fun q after before => covered q (by omega) (by omega))
        (by rwa [show pos + (gap + 1) = pos + 1 + gap by omega] at more)
    rcases Nat.lt_or_ge pos bytes.size with inside | past
    · exact .covered inside (covered pos (Nat.le_refl _) (by omega)) later
    · obtain rfl := later.unique (.done (by omega))
      exact .done past

/-! ### What the scanner looks for -/

theorem toLower_eq_iff {b : UInt8} {c : Char} (listed : c ∈ "[toc]".toList) :
    (Char.ofNat b.toNat).toLower = c ↔ Text.lowerByte b = c.val.toUInt8 := by
  have all : ∀ n < 256, ("[toc]".toList.all fun c =>
      ((Char.ofNat n).toLower == c) == (Text.lowerByte (UInt8.ofNat n) == c.val.toUInt8)) = true := by
    decide +kernel
  have here := beq_iff_eq.mp (List.all_eq_true.mp (all b.toNat b.toNat_lt) c listed)
  rw [UInt8.ofNat_toNat] at here
  rw [← beq_iff_eq, here, beq_iff_eq]

/-- A text that is not empty stands at a caret if each of its bytes stands where its place is. -/
theorem startsWithIgnoringCase_iff {pattern : List UInt8} (filled : pattern ≠ []) :
    (Caret.mk bytes pos).startsWithIgnoringCase pattern = true ↔
      ∀ i m, pattern[i]? = some m → ∃ b, bytes[pos + i]? = some b ∧ Text.lowerByte b = Text.lowerByte m := by
  unfold Caret.startsWithIgnoringCase Caret.take?
  constructor
  · intro starts i m there
    split at starts
    · rename_i found taken
      split at taken
      · rename_i inside
        obtain rfl := Option.some.inj taken
        rw [beq_iff_eq] at starts
        obtain ⟨place, rfl⟩ := List.getElem?_eq_some_iff.mp there
        have bound : pos + i < bytes.size := by simp only at inside; omega
        have same := congrArg (fun list => list[i]?) starts
        simp only [List.getElem?_map, Array.getElem?_toList, there, Option.map_some] at same
        rw [Array.getElem?_extract_of_lt (by omega)] at same
        exact ⟨_, Array.getElem?_eq_getElem bound, Option.some.inj same⟩
      · cases taken
    · cases starts
  · intro each
    have positive := List.length_pos_iff.mpr filled
    obtain ⟨b, last, -⟩ := each (pattern.length - 1) _ (List.getElem?_eq_getElem (by omega))
    have bound := (Array.getElem?_eq_some_iff.mp last).1
    have inside : pos + pattern.length ≤ bytes.size := by omega
    rw [if_pos inside]
    simp only [beq_iff_eq]
    refine List.ext_getElem (by simp; omega) fun i left right => ?_
    obtain ⟨b, here, same⟩ := each i _ (List.getElem?_eq_getElem (by simpa using right))
    obtain ⟨within, rfl⟩ := Array.getElem?_eq_some_iff.mp here
    simpa using same

theorem markerTexts_bytes {marker : String} (listed : marker ∈ markerTexts) :
    (Text.bytes marker).toList = marker.toList.map (fun c => c.val.toUInt8) ∧
      marker.toList ≠ [] ∧ ∀ c ∈ marker.toList, c ∈ "[toc]".toList := by
  have letters : ∀ marker ∈ markerTexts, (marker.toList.all fun c => "[toc]".toList.contains c) = true := by decide
  refine ⟨?_, ?_, fun c member => ?_⟩
  · revert listed marker
    decide
  · revert listed marker
    decide
  · exact List.contains_iff_mem.mp (List.all_eq_true.mp (letters marker listed) c member)

theorem lowerByte_of_marker {c : Char} (listed : c ∈ "[toc]".toList) :
    Text.lowerByte c.val.toUInt8 = c.val.toUInt8 := by
  have all : ("[toc]".toList.all fun c => Text.lowerByte c.val.toUInt8 == c.val.toUInt8) = true := by decide
  exact beq_iff_eq.mp (List.all_eq_true.mp all c listed)

theorem markerAt_iff {marker : String} (listed : marker ∈ markerTexts) :
    (Caret.mk bytes pos).startsWithIgnoringCase (Text.bytes marker).toList = true ↔
      MarkerAt bytes pos marker := by
  obtain ⟨encoded, filled, letters⟩ := markerTexts_bytes listed
  rw [encoded, startsWithIgnoringCase_iff (by simpa using filled)]
  simp only [List.getElem?_map, Option.map_eq_some_iff, forall_exists_index, and_imp, MarkerAt]
  constructor
  · intro each i c there
    have known := letters c (List.mem_of_getElem? there)
    obtain ⟨b, here, same⟩ := each i _ c there rfl
    rw [lowerByte_of_marker known] at same
    exact ⟨b, here, (toLower_eq_iff known).mpr same⟩
  · rintro each i _ c there rfl
    have known := letters c (List.mem_of_getElem? there)
    obtain ⟨b, here, same⟩ := each i c there
    rw [lowerByte_of_marker known]
    exact ⟨b, here, (toLower_eq_iff known).mp same⟩

theorem contentsMarkerLength?_iff :
    (∀ length, contentsMarkerLength? bytes pos = some length →
      ∃ marker ∈ markerTexts, MarkerAt bytes pos marker ∧ length = marker.length) ∧
    (contentsMarkerLength? bytes pos = none → ∀ marker ∈ markerTexts, ¬ MarkerAt bytes pos marker) := by
  have known : contentsMarkers = markerTexts.map fun marker => (Text.bytes marker).toList := rfl
  simp only [contentsMarkerLength?, Option.map_eq_some_iff, Option.map_eq_none_iff, known]
  refine ⟨?_, fun missing marker listed found => ?_⟩
  · rintro _ ⟨pattern, found, rfl⟩
    obtain ⟨marker, listed, rfl⟩ := List.mem_map.mp (List.mem_of_find?_eq_some found)
    refine ⟨marker, listed, (markerAt_iff listed).mp (List.find?_some found), ?_⟩
    rw [(markerTexts_bytes listed).1, List.length_map, String.length_toList]
  · rw [List.find?_eq_none] at missing
    exact missing _ (List.mem_map_of_mem listed) ((markerAt_iff listed).mpr found)

/-! ### The scanner -/

theorem outside_append {blocks : List Span} :
    Outside (zones ++ blocks) pos ↔ Outside zones pos ∧ Outside blocks pos := by
  simp only [Outside, List.mem_append, or_imp, forall_and]

theorem occupiedAt?_eq_none_iff (ascending : Span.Ascending zones) (ascending' : Span.Ascending blocks) :
    occupiedAt? zones.toArray blocks.toArray pos = none ↔ Outside (zones ++ blocks) pos := by
  rw [outside_append, ← spanAt?_eq_none_iff ascending, ← spanAt?_eq_none_iff ascending']
  unfold occupiedAt?
  cases spanAt? zones.toArray pos <;> simp

theorem covers_of_occupiedAt? (ascending : Span.Ascending zones) (ascending' : Span.Ascending blocks)
    {span : Span} (found : occupiedAt? zones.toArray blocks.toArray pos = some span) :
    span ∈ zones ++ blocks ∧ span.start ≤ pos ∧ pos < span.stop := by
  unfold occupiedAt? at found
  cases zone : spanAt? zones.toArray pos with
  | none =>
    rw [zone] at found
    obtain ⟨member, covers⟩ := covers_of_spanAt? ascending' found
    exact ⟨List.mem_append_right _ member, covers⟩
  | some other =>
    rw [zone] at found
    obtain rfl := Option.some.inj found
    obtain ⟨member, covers⟩ := covers_of_spanAt? ascending zone
    exact ⟨List.mem_append_left _ member, covers⟩

/-- The search for the end of a formula finds it if there is one. `start` is the place behind the opening
    dollar sign, and up to `pos` nothing has ended the search. -/
theorem inlineStop?_iff (ascending : Span.Ascending zones) (ascending' : Span.Ascending blocks) {start : Nat}
    (opens : DollarAt bytes start) (behind : start < pos)
    (passed : ∀ q, start < q → q < pos →
      ¬ DollarAt bytes q ∧ bytes[q]? ≠ some newlineByte ∧ Outside (zones ++ blocks) q) :
    (∀ stop, inlineStop? bytes zones.toArray blocks.toArray (start + 1) pos = some stop →
      ∃ close, stop = close + 1 ∧ FormulaAt bytes (zones ++ blocks) start close) ∧
    (inlineStop? bytes zones.toArray blocks.toArray (start + 1) pos = none →
      ∀ close, ¬ FormulaAt bytes (zones ++ blocks) start close) := by
  -- A formula ends neither where the search has passed nor at a place that ends it.
  have later {close : Nat} (formula : FormulaAt bytes (zones ++ blocks) start close) : pos ≤ close := by
    have body := formula.body
    rcases Nat.lt_or_ge close pos with before | notBefore
    · exact absurd formula.closes (passed close (by omega) before).1
    · exact notBefore
  fun_induction inlineStop? bytes zones.toArray blocks.toArray (start + 1) pos with
  | case1 pos past =>
    refine ⟨fun stop h => (by cases h), fun _ close formula => ?_⟩
    have inside := formula.closes.inside
    have reached := later formula
    rw [Array.getElem?_eq_none_iff] at past
    omega
  | case2 pos b here blocked =>
    refine ⟨fun stop h => (by cases h), fun _ close formula => ?_⟩
    rcases blocked with feed | occupied
    · subst feed
      rcases Nat.eq_or_lt_of_le (later formula) with rfl | before
      · obtain same := Option.some.inj (here.symm.trans formula.closes.dollar)
        exact absurd same (by decide)
      · exact formula.sameLine pos behind before here
    · have free := formula.outside pos behind (later formula)
      rw [← occupiedAt?_eq_none_iff ascending ascending'] at free
      rw [free] at occupied
      cases occupied
  | case3 pos b here open' isDollar body =>
    refine ⟨fun stop h => ?_, fun h => by cases h⟩
    obtain rfl := Option.some.inj h
    rw [not_or, Option.not_isSome_iff_eq_none, occupiedAt?_eq_none_iff ascending ascending'] at open'
    refine ⟨pos, rfl, opens, body, isDollarAt_iff.mp isDollar, fun q after before => ?_,
      fun q after before => ?_, fun q after upTo => ?_⟩
    · exact (passed q after before).1
    · exact (passed q after before).2.1
    · rcases Nat.eq_or_lt_of_le upTo with rfl | before
      · exact open'.2
      · exact (passed q after before).2.2
  | case4 pos b here open' isDollar noBody =>
    refine ⟨fun stop h => (by cases h), fun _ close formula => ?_⟩
    have body := formula.body
    exact formula.next pos behind (by omega) (isDollarAt_iff.mp isDollar)
  | case5 pos b here open' noDollar inside ih =>
    rw [not_or, Option.not_isSome_iff_eq_none, occupiedAt?_eq_none_iff ascending ascending'] at open'
    have here' : ¬ DollarAt bytes pos ∧ bytes[pos]? ≠ some newlineByte ∧ Outside (zones ++ blocks) pos := by
      refine ⟨fun dollar => noDollar (isDollarAt_iff.mpr dollar), fun feed => ?_, open'.2⟩
      exact open'.1 (Option.some.inj (here.symm.trans feed))
    refine ih (by omega) (fun q after before => ?_) fun formula => ?_
    · rcases Nat.eq_or_lt_of_le (Nat.le_of_lt_succ before) with rfl | earlier
      · exact here'
      · exact passed q after earlier
    · rcases Nat.eq_or_lt_of_le (later formula) with rfl | before
      · exact absurd formula.closes here'.1
      · exact before

theorem inlineFrom_inlineRegionsFrom (ascending : Span.Ascending zones) (ascending' : Span.Ascending blocks) :
    InlineFrom bytes (zones ++ blocks) pos (inlineRegionsFrom bytes zones.toArray blocks.toArray pos) := by
  fun_induction inlineRegionsFrom bytes zones.toArray blocks.toArray pos with
  | case1 pos inside span covered forward ih =>
    obtain ⟨member, starts, -⟩ := covers_of_occupiedAt? ascending ascending' covered
    exact .leap (Nat.le_of_lt forward)
      (fun q after before outside => outside span member ⟨by omega, before⟩) ih
  | case2 pos inside span covered stuck =>
    exact absurd (covers_of_occupiedAt? ascending ascending' covered).2.2 stuck
  | case3 pos inside uncovered length found ih =>
    obtain ⟨marker, listed, here, rfl⟩ := contentsMarkerLength?_iff.1 _ found
    have positive := (contentsMarkerLength?_spec found).1
    rw [Nat.max_eq_right positive] at ih
    exact .marker ((occupiedAt?_eq_none_iff ascending ascending').mp uncovered) listed here
      (by rwa [Nat.max_eq_right positive])
  | case4 pos inside uncovered noMarker isDollar stop closes ih =>
    have dollar := isDollarAt_iff.mp isDollar
    have search := inlineStop?_iff ascending ascending' dollar (Nat.lt_succ_self pos)
      fun q after before => by omega
    obtain ⟨close, rfl, formula⟩ := search.1 _ closes
    have body := formula.body
    rw [if_pos (by omega)]
    exact .formula ((occupiedAt?_eq_none_iff ascending ascending').mp uncovered) formula (ih (by omega))
  | case5 pos inside uncovered noMarker isDollar unclosed ih =>
    have dollar := isDollarAt_iff.mp isDollar
    have search := inlineStop?_iff ascending ascending' dollar (Nat.lt_succ_self pos)
      fun q after before => by omega
    exact .other inside ((occupiedAt?_eq_none_iff ascending ascending').mp uncovered)
      (contentsMarkerLength?_iff.2 noMarker) (search.2 unclosed) ih
  | case6 pos inside uncovered noMarker noDollar ih =>
    exact .other inside ((occupiedAt?_eq_none_iff ascending ascending').mp uncovered)
      (contentsMarkerLength?_iff.2 noMarker)
      (fun close formula => noDollar (isDollarAt_iff.mpr formula.opens)) ih
  | case7 pos past => exact .done (by omega)

/-- The scanner finds the markers and formulas of the grammar. -/
theorem inlineFrom_iff (ascending : Span.Ascending zones) (ascending' : Span.Ascending blocks)
    {found : List Region} :
    InlineFrom bytes (zones ++ blocks) pos found ↔
      found = inlineRegionsFrom bytes zones.toArray blocks.toArray pos :=
  ⟨fun read => read.unique (inlineFrom_inlineRegionsFrom ascending ascending'),
    fun same => same ▸ inlineFrom_inlineRegionsFrom ascending ascending'⟩

/-! ## Both together -/

/-- The regions of a document: its display formulas outside the code zones, and its markers and formulas in the
    line outside of both, in their order. -/
def Protects (source : String) (regions : List Region) : Prop :=
  ∃ blocks inline,
    BlocksFrom (Text.bytes source) (codeZones source) 0 blocks ∧
    InlineFrom (Text.bytes source) (codeZones source ++ blocks) 0 inline ∧
    regions.Perm (blocks.map (Region.mk · .mathBlock) ++ inline) ∧
    Span.Ascending (regions.map Region.span)

/-- The regions that are taken out are those of the grammar. -/
theorem protects_iff {source : String} {regions : List Region} :
    Protects source regions ↔ regions = protectedRegions source := by
  have zones := codeZones_ascending source
  have blocks := blockRegions_ascending source (codeZones source)
  constructor
  · rintro ⟨found, inline, first, second, same, ordered⟩
    obtain rfl := (blocksFrom_iff zones).mp first
    obtain rfl := (inlineFrom_iff zones blocks).mp second
    have perm := same.trans (List.mergeSort_perm _ Region.le).symm
    have mine := List.pairwise_map.mp ordered.apart
    have its := List.pairwise_map.mp (protectedRegions_ascending source).apart
    refine perm.eq_of_pairwise (fun a b ha hb less more => ?_) mine its
    -- Two regions cannot each end in front of the other.
    have forward := ordered.forward _ (List.mem_map_of_mem ha)
    have forward' := (protectedRegions_ascending source).forward _ (List.mem_map_of_mem hb)
    omega
  · rintro rfl
    exact ⟨_, _, (blocksFrom_iff zones).mpr rfl, (inlineFrom_iff zones blocks).mpr rfl,
      List.mergeSort_perm _ _, protectedRegions_ascending source⟩

end Galley.Source
