import Galley.Proofs.Source.Backticks

/-!
# Scanners turn by turn

A scanner that comes into a span leaps to where the span stops, as bisection finds it, and relies on that place being
further on. Here each scanner is one turn made over and over, and a leap goes wherever the span that was found stops. Since
bisection finds the span that covers the place, every turn leads forward, and all scanners come to an end.

* `Located` — bisection finds what a search from left to right would;
* `Turn`, `Scans` — one turn of a scanner, and all that it finds, turn by turn;
* `Progress`, `Completes` — turns that lead forward, and come to an end with what a scanner finds;
* `leaping`, `completes_leaping` — the turn of a scanner that leaps out of spans;
* `delimiterHere`, `blockHere`, `inlineHere`, `codeHere` — what the scanners do where they stand in none;
* `lookups_find_covering_spans` — so it is for each text.
-/

namespace Galley.Source

variable {α : Type} {bytes : Array UInt8} {zones blocks fences spans : List Span} {pos : Nat}

/-! ## Lookups -/

/-- At each place bisection finds the span that covers it, as a search from left to right does, and nothing where there is
    none. -/
structure Located (spans : List Span) : Prop where
  search : ∀ pos, spanAt? spans.toArray pos = spans.find? fun span => span.covers pos
  found_iff : ∀ pos span, spanAt? spans.toArray pos = some span ↔ span ∈ spans ∧ span.start ≤ pos ∧ pos < span.stop
  none_iff : ∀ pos, spanAt? spans.toArray pos = none ↔ ∀ span ∈ spans, ¬ (span.start ≤ pos ∧ pos < span.stop)

theorem Span.Ascending.located (ascending : Span.Ascending spans) : Located spans where
  search pos := spanAt?_eq_find? ascending pos
  found_iff pos span := by
    refine ⟨covers_of_spanAt? ascending, fun ⟨member, starts, stops⟩ => ?_⟩
    cases found : spanAt? spans.toArray pos with
    | none => exact absurd ⟨starts, stops⟩ ((spanAt?_eq_none_iff ascending).mp found span member)
    | some other =>
      obtain ⟨listed, covers⟩ := covers_of_spanAt? ascending found
      rw [ascending.eq_of_covers listed member covers ⟨starts, stops⟩]
  none_iff pos := spanAt?_eq_none_iff ascending

/-! ## Turns -/

/-- One turn of a scanner: what it finds at a place, and the place where it goes on, if it does. -/
structure Turn (α : Type) where
  found : List α
  next : Option Nat

/-- All that a scanner finds from a place on, turn by turn. It has to come to an end. -/
inductive Scans (turn : Nat → Turn α) : Nat → List α → Prop where
  | stop {pos : Nat} (ends : (turn pos).next = none) : Scans turn pos (turn pos).found
  | goOn {pos next : Nat} {rest : List α} (goes : (turn pos).next = some next) (more : Scans turn next rest) :
      Scans turn pos ((turn pos).found ++ rest)

/-- A turn is only made in front of a bound, and leads forward. -/
def Progress (bound : Nat) (turn : Nat → Turn α) : Prop :=
  ∀ pos next, (turn pos).next = some next → pos < bound ∧ pos < next

variable {turn : Nat → Turn α} {bound : Nat} {found other : List α}

theorem Scans.unique (left : Scans turn pos found) (right : Scans turn pos other) : found = other := by
  induction left generalizing other with
  | stop ends =>
    cases right with
    | stop => rfl
    | goOn goes => simp [ends] at goes
  | goOn goes more ih =>
    cases right with
    | stop ends => simp [goes] at ends
    | goOn goes' more' =>
      obtain rfl := Option.some.inj (goes.symm.trans goes')
      rw [ih more']

/-- Made over and over, a turn leads forward each time, comes to an end, and finds what a scanner finds. -/
structure Completes (bound : Nat) (turn : Nat → Turn α) (scan : Nat → List α) : Prop where
  progress : Progress bound turn
  scans_iff : ∀ pos found, Scans turn pos found ↔ found = scan pos

/-- A scanner that does what a turn does and goes on where the turn leads finds what all the turns find. -/
theorem Progress.completes {scan : Nat → List α} (progress : Progress bound turn)
    (unfolds : ∀ pos, scan pos = (turn pos).found ++ (turn pos).next.elim [] scan) : Completes bound turn scan := by
  have scans (pos : Nat) : Scans turn pos (scan pos) := by
    -- Induction on how far the bound is away.
    induction distance : bound - pos using Nat.strong_induction_on generalizing pos with
    | _ distance ih =>
      rw [unfolds pos]
      cases goes : (turn pos).next with
      | none =>
        rw [Option.elim_none, List.append_nil]
        exact .stop goes
      | some next =>
        obtain ⟨inside, forward⟩ := progress pos next goes
        rw [Option.elim_some]
        exact .goOn goes (ih (bound - next) (by omega) next rfl)
  exact ⟨progress, fun pos found => ⟨fun run => run.unique (scans pos), fun same => same ▸ scans pos⟩⟩

/-! ## Leaps -/

/-- The turn of a scanner that leaps out of a span in which it stands, to wherever that stops, and does something else
    where it stands in none. -/
def leaping (size : Nat) (lookup : Nat → Option Span) (here : Nat → Turn α) (pos : Nat) : Turn α :=
  if pos < size then
    match lookup pos with
    | some span => ⟨[], some span.stop⟩
    | none => here pos
  else
    ⟨[], none⟩

variable {size : Nat} {lookup : Nat → Option Span} {here : Nat → Turn α}

theorem progress_leaping (leaps : ∀ pos span, lookup pos = some span → pos < span.stop)
    (steps : ∀ pos next, (here pos).next = some next → pos < next) : Progress size (leaping size lookup here) := by
  intro pos next goes
  unfold leaping at goes
  split at goes
  next inside =>
    split at goes
    next span found =>
      obtain rfl := Option.some.inj goes
      exact ⟨inside, leaps pos span found⟩
    next => exact ⟨inside, steps pos next goes⟩
  next => cases goes

/-- A scanner that leaps out of a span if that leads forward does so in every span, for it always does. -/
theorem completes_leaping {scan : Nat → List α} (leaps : ∀ pos span, lookup pos = some span → pos < span.stop)
    (steps : ∀ pos next, (here pos).next = some next → pos < next)
    (covered : ∀ pos span, pos < size → lookup pos = some span → pos < span.stop → scan pos = scan span.stop)
    (free : ∀ pos, pos < size → lookup pos = none → scan pos = (here pos).found ++ (here pos).next.elim [] scan)
    (past : ∀ pos, size ≤ pos → scan pos = []) : Completes size (leaping size lookup here) scan := by
  refine (progress_leaping leaps steps).completes fun pos => ?_
  unfold leaping
  split
  next inside =>
    split
    next span found => exact covered pos span inside found (leaps pos span found)
    next missing => exact free pos inside missing
  next outside => exact past pos (Nat.le_of_not_lt outside)

/-! ## Scanners -/

/-- Where no zone is, the search for a block delimiter ends at one. -/
def delimiterHere (bytes : Array UInt8) (pos : Nat) : Turn Nat :=
  if isBlockDelimiterAt bytes pos then ⟨[pos], none⟩ else ⟨[], some (pos + 1)⟩

/-- Where no zone is, a display formula may begin that another delimiter ends. If none does, no later one is ended. -/
def blockHere (bytes : Array UInt8) (zones : Array Span) (pos : Nat) : Turn Span :=
  if isBlockDelimiterAt bytes pos then
    match nextBlockDelimiter? bytes zones (pos + 3) with
    | some close => ⟨[⟨pos, close + 2⟩], some (close + 2)⟩
    | none => ⟨[], none⟩
  else
    ⟨[], some (pos + 1)⟩

/-- Where neither a zone nor a display formula is, a marker or a formula in the line may begin. -/
def inlineHere (bytes : Array UInt8) (zones blocks : Array Span) (pos : Nat) : Turn Region :=
  match contentsMarkerLength? bytes pos with
  | some length => ⟨[⟨⟨pos, pos + length⟩, .contentsMarker⟩], some (pos + length)⟩
  | none =>
    if isDollarAt bytes pos then
      match inlineStop? bytes zones blocks (pos + 1) (pos + 1) with
      | some stop => ⟨[⟨⟨pos, stop⟩, .mathInline⟩], some stop⟩
      | none => ⟨[], some (pos + 1)⟩
    else
      ⟨[], some (pos + 1)⟩

/-- Where no fenced block is, a code span may begin, and a backslash takes the next byte along. -/
def codeHere (bytes : Array UInt8) (fences : Array Span) (blanks : List Nat) (pos : Nat) : Turn Span :=
  if bytes[pos]? = some backslashByte then
    ⟨[], some (pos + 2)⟩
  else if bytes[pos]? = some backtickByte then
    let run := backtickRun bytes pos
    let nextFence := ((fences.find? fun fence => pos + run ≤ fence.start).map Span.start).getD bytes.size
    let nextBlank := (blanks.find? fun start => pos + run < start).getD bytes.size
    match closingRun? bytes (min nextFence nextBlank) run (pos + run) with
    | some close => ⟨[⟨pos, close + run⟩], some (close + run)⟩
    | none => ⟨[], some (pos + run)⟩
  else
    ⟨[], some (pos + 1)⟩

theorem lt_next_delimiterHere {next : Nat} (goes : (delimiterHere bytes pos).next = some next) : pos < next := by
  unfold delimiterHere at goes
  split at goes
  · cases goes
  · obtain rfl := Option.some.inj goes
    exact Nat.lt_succ_self pos

theorem lt_next_blockHere {zones : Array Span} {next : Nat} (goes : (blockHere bytes zones pos).next = some next) :
    pos < next := by
  unfold blockHere at goes
  split at goes
  · split at goes
    next close found =>
      have := le_of_nextBlockDelimiter? found
      obtain rfl := Option.some.inj goes
      omega
    next => cases goes
  · obtain rfl := Option.some.inj goes
    exact Nat.lt_succ_self pos

theorem lt_next_inlineHere {zones blocks : Array Span} {next : Nat}
    (goes : (inlineHere bytes zones blocks pos).next = some next) : pos < next := by
  unfold inlineHere at goes
  split at goes
  next length marker =>
    have := (contentsMarkerLength?_spec marker).1
    obtain rfl := Option.some.inj goes
    omega
  next =>
    split at goes
    · split at goes
      next stop found =>
        have := (inlineStop?_spec found).1
        obtain rfl := Option.some.inj goes
        omega
      next =>
        obtain rfl := Option.some.inj goes
        exact Nat.lt_succ_self pos
    · obtain rfl := Option.some.inj goes
      exact Nat.lt_succ_self pos

theorem lt_next_codeHere {fences : Array Span} {blanks : List Nat} {next : Nat}
    (goes : (codeHere bytes fences blanks pos).next = some next) : pos < next := by
  unfold codeHere at goes
  split at goes
  · obtain rfl := Option.some.inj goes
    omega
  · split at goes
    next isTick =>
      have positive := backtickRun_pos isTick
      simp only at goes
      split at goes
      next close found =>
        have := (closingRun?_spec found).1
        obtain rfl := Option.some.inj goes
        omega
      next =>
        obtain rfl := Option.some.inj goes
        omega
    next =>
      obtain rfl := Option.some.inj goes
      exact Nat.lt_succ_self pos

section delimiters

variable {zones : Array Span}

theorem nextBlockDelimiter?_of_covered {zone : Span} (inside : pos < bytes.size) (found : spanAt? zones pos = some zone)
    (forward : pos < zone.stop) : nextBlockDelimiter? bytes zones pos = nextBlockDelimiter? bytes zones zone.stop := by
  rw [nextBlockDelimiter?]
  simp [inside, found, forward]

theorem nextBlockDelimiter?_of_free (inside : pos < bytes.size) (missing : spanAt? zones pos = none) :
    nextBlockDelimiter? bytes zones pos =
      if isBlockDelimiterAt bytes pos then some pos else nextBlockDelimiter? bytes zones (pos + 1) := by
  rw [nextBlockDelimiter?]
  simp [inside, missing]

theorem nextBlockDelimiter?_of_past (past : bytes.size ≤ pos) : nextBlockDelimiter? bytes zones pos = none := by
  rw [nextBlockDelimiter?]
  simp [Nat.not_lt_of_le past]

/-- The display formulas from a place on are those from the first delimiter on. -/
theorem blockRegionsFrom_eq (bytes : Array UInt8) (zones : Array Span) (pos : Nat) : blockRegionsFrom bytes zones pos =
    match nextBlockDelimiter? bytes zones pos with
    | none => []
    | some start =>
      match nextBlockDelimiter? bytes zones (start + 3) with
      | none => []
      | some close => ⟨start, close + 2⟩ :: blockRegionsFrom bytes zones (close + 2) := by
  rw [blockRegionsFrom]
  split
  next missing => simp only [missing]
  next start opened =>
    split
    next missing => simp only [opened, missing]
    next close closed => simp only [opened, closed]

end delimiters

theorem completes_delimiters (ascending : Span.Ascending zones) :
    Completes bytes.size (leaping bytes.size (spanAt? zones.toArray) (delimiterHere bytes))
      fun pos => (nextBlockDelimiter? bytes zones.toArray pos).toList := by
  apply completes_leaping
  case leaps => exact fun pos zone found => (covers_of_spanAt? ascending found).2.2
  case steps => exact fun pos next => lt_next_delimiterHere
  case covered =>
    intro pos zone inside found forward
    simp only [nextBlockDelimiter?_of_covered inside found forward]
  case free =>
    intro pos inside missing
    simp only [nextBlockDelimiter?_of_free inside missing]
    unfold delimiterHere
    split <;> rfl
  case past =>
    intro pos outside
    simp only [nextBlockDelimiter?_of_past outside, Option.toList_none]

theorem completes_blockRegions (ascending : Span.Ascending zones) :
    Completes bytes.size (leaping bytes.size (spanAt? zones.toArray) (blockHere bytes zones.toArray))
      (blockRegionsFrom bytes zones.toArray) := by
  apply completes_leaping
  case leaps => exact fun pos zone found => (covers_of_spanAt? ascending found).2.2
  case steps => exact fun pos next => lt_next_blockHere
  case covered =>
    intro pos zone inside found forward
    rw [blockRegionsFrom_eq, nextBlockDelimiter?_of_covered inside found forward, ← blockRegionsFrom_eq]
  case free =>
    intro pos inside missing
    rw [blockRegionsFrom_eq, nextBlockDelimiter?_of_free inside missing, blockHere]
    by_cases delimiter : isBlockDelimiterAt bytes pos = true
    · -- Without another delimiter the scanner ends, and so do the turns.
      simp only [if_pos delimiter]
      cases nextBlockDelimiter? bytes zones.toArray (pos + 3) <;> rfl
    · rw [if_neg delimiter, if_neg delimiter, ← blockRegionsFrom_eq]
      rfl
  case past =>
    intro pos outside
    rw [blockRegionsFrom_eq, nextBlockDelimiter?_of_past outside]

theorem completes_codeSpans (ascending : Span.Ascending fences) (blanks : List Nat) :
    Completes bytes.size (leaping bytes.size (spanAt? fences.toArray) (codeHere bytes fences.toArray blanks))
      (codeSpansFrom bytes fences.toArray blanks) := by
  apply completes_leaping
  case leaps => exact fun pos fence found => (covers_of_spanAt? ascending found).2.2
  case steps => exact fun pos next => lt_next_codeHere
  case covered =>
    intro pos fence inside found forward
    rw [codeSpansFrom]
    simp [inside, found, forward]
  case free =>
    intro pos inside missing
    rw [codeSpansFrom, codeHere]
    by_cases slash : bytes[pos]? = some backslashByte
    · simp only [dif_pos inside, missing, if_pos slash]
      rfl
    by_cases tick : bytes[pos]? = some backtickByte
    · have positive := backtickRun_pos tick
      simp only [dif_pos inside, missing, if_neg slash, dif_pos tick, if_pos tick]
      generalize closes : closingRun? bytes _ _ _ = closing
      cases closing with
      | some close =>
        have forward : pos < close + backtickRun bytes pos := by
          have := (closingRun?_spec closes).1
          omega
        simp [forward]
      | none => rfl
    · simp only [dif_pos inside, missing, if_neg slash, dif_neg tick, if_neg tick]
      rfl
  case past =>
    intro pos outside
    rw [codeSpansFrom]
    simp [Nat.not_lt_of_le outside]

theorem completes_inlineRegions (ascending : Span.Ascending zones) (ascending' : Span.Ascending blocks) :
    Completes bytes.size (leaping bytes.size (occupiedAt? zones.toArray blocks.toArray)
      (inlineHere bytes zones.toArray blocks.toArray)) (inlineRegionsFrom bytes zones.toArray blocks.toArray) := by
  apply completes_leaping
  case leaps => exact fun pos span found => (covers_of_occupiedAt? ascending ascending' found).2.2
  case steps => exact fun pos next => lt_next_inlineHere
  case covered =>
    intro pos span inside found forward
    rw [inlineRegionsFrom]
    simp [inside, found, forward]
  case free =>
    intro pos inside missing
    rw [inlineRegionsFrom, inlineHere]
    cases marker : contentsMarkerLength? bytes pos with
    | some length =>
      have positive := (contentsMarkerLength?_spec marker).1
      simp [inside, missing, Nat.max_eq_right positive]
    | none =>
      by_cases dollar : isDollarAt bytes pos = true
      · cases closes : inlineStop? bytes zones.toArray blocks.toArray (pos + 1) (pos + 1) with
        | some stop =>
          have forward : pos < stop := by
            have := (inlineStop?_spec closes).1
            omega
          simp [inside, missing, dollar, forward]
        | none => simp [inside, missing, dollar]
      · simp [inside, missing, dollar]
  case past =>
    intro pos outside
    rw [inlineRegionsFrom]
    simp [Nat.not_lt_of_le outside]

/-! ## Lookups of a text -/

/-- In the zones of a text, in its display formulas and in its fenced blocks bisection finds the span that covers a place as
    a search from left to right does. What is found stops behind the place, so each scanner that leaps there makes progress
    in every turn and comes to an end. -/
theorem lookups_find_covering_spans (text : String) :
    let bytes := Text.bytes text
    let fences := fencedZones text
    let zones := codeZones text
    let blocks := blockRegions text zones
    (Located zones ∧ Located blocks ∧ Located fences) ∧
      (∀ pos span, spanAt? zones.toArray pos = some span ∨ spanAt? blocks.toArray pos = some span ∨
        spanAt? fences.toArray pos = some span → pos < span.stop) ∧
      Completes bytes.size (leaping bytes.size (spanAt? fences.toArray)
        (codeHere bytes fences.toArray (blankLineStarts text))) (codeSpansFrom bytes fences.toArray (blankLineStarts text)) ∧
      Completes bytes.size (leaping bytes.size (spanAt? zones.toArray) (delimiterHere bytes))
        (fun pos => (nextBlockDelimiter? bytes zones.toArray pos).toList) ∧
      Completes bytes.size (leaping bytes.size (spanAt? zones.toArray) (blockHere bytes zones.toArray))
        (blockRegionsFrom bytes zones.toArray) ∧
      Completes bytes.size (leaping bytes.size (occupiedAt? zones.toArray blocks.toArray)
        (inlineHere bytes zones.toArray blocks.toArray)) (inlineRegionsFrom bytes zones.toArray blocks.toArray) := by
  intro bytes fences zones blocks
  have fenced : Span.Ascending fences := fencedZones_ascending text
  have zoned : Span.Ascending zones := codeZones_ascending text
  have blocked : Span.Ascending blocks := blockRegions_ascending text zones
  refine ⟨⟨zoned.located, blocked.located, fenced.located⟩, ?_, completes_codeSpans fenced _, completes_delimiters zoned,
    completes_blockRegions zoned, completes_inlineRegions zoned blocked⟩
  rintro pos span (found | found | found)
  · exact (covers_of_spanAt? zoned found).2.2
  · exact (covers_of_spanAt? blocked found).2.2
  · exact (covers_of_spanAt? fenced found).2.2

/-- A code span is found up to its last byte and a display formula from its first one, and nothing between them. -/
theorem lookups_around_code_and_formula :
    let text := "`$` $$x$$"
    let zones := codeZones text
    let blocks := blockRegions text zones
    (spanAt? zones.toArray 2 = some ⟨0, 3⟩ ∧ spanAt? zones.toArray 3 = none) ∧
      spanAt? blocks.toArray 3 = none ∧ spanAt? blocks.toArray 4 = some ⟨4, 9⟩ ∧ 4 < (⟨4, 9⟩ : Span).stop := by
  intro text zones blocks
  have code : zones = [⟨0, 3⟩] := by decide +kernel
  have formula : blocks = [⟨4, 9⟩] := by decide +kernel
  obtain ⟨⟨zoned, blocked, -⟩, stops, -⟩ := lookups_find_covering_spans text
  have inCode : ⟨0, 3⟩ ∈ zones := by simp [code]
  have inFormula : ⟨4, 9⟩ ∈ blocks := by simp [formula]
  have opened : spanAt? blocks.toArray 4 = some ⟨4, 9⟩ := (blocked.found_iff 4 _).mpr ⟨inFormula, by decide⟩
  refine ⟨⟨(zoned.found_iff 2 _).mpr ⟨inCode, by decide⟩, (zoned.none_iff 3).mpr ?_⟩,
    (blocked.none_iff 3).mpr ?_, opened, stops 4 _ (.inr (.inl opened))⟩
  · change ∀ span ∈ zones, _
    simp [code]
  · change ∀ span ∈ blocks, _
    simp [formula]

end Galley.Source
