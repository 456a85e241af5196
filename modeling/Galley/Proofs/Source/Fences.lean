import Galley.Proofs.Source.Zones

/-!
# Fenced blocks by their lines

The scanner carries the open fence from line to line. Said without it, a block is an opening line with all lines up to
the first one that closes it, and no other line opens one.

* `PlacedLine.IsOutside` — a line that no span touches;
* `blockStop`, `linesBehind` — where an open block ends, and the lines that are left behind it;
* `FencesFrom` — the blocks among some lines, one after the other, and `fencesFrom_fencedZonesFrom`: the scanner finds
  them;
* `Fenced`, `Fencing` — the blocks of a text by what each of them is, and `FencesFrom.fencing_iff`: these are the same;
* `fencedZones_are_fences` — so it is for a whole text, and blocks are made of whole lines.
-/

namespace Galley.Source

variable {size pos : Nat} {fence : Fence} {lines rest : List PlacedLine} {line : PlacedLine} {span : Span}
  {spans others : List Span}

/-! ## Lines -/

instance decidableApart (a b : Span) : Decidable (a.Apart b) := inferInstanceAs (Decidable (_ ∨ _))

/-- No span touches a line. -/
def PlacedLine.IsOutside (line : PlacedLine) (spans : List Span) : Prop := ∀ span ∈ spans, span.Apart line.span

instance decidableIsOutside (line : PlacedLine) (spans : List Span) : Decidable (line.IsOutside spans) :=
  inferInstanceAs (Decidable (∀ span ∈ spans, span.Apart line.span))

/-- The lines that no span touches. -/
def linesOutside (spans : List Span) (lines : List PlacedLine) : List PlacedLine :=
  lines.filter fun line => line.IsOutside spans

theorem linesOutside_cons (span : Span) (spans : List Span) (lines : List PlacedLine) :
    linesOutside (span :: spans) lines = linesOutside spans (lines.filter fun line => span.Apart line.span) := by
  unfold linesOutside
  rw [List.filter_filter]
  refine List.filter_congr fun line _ => ?_
  rw [← Bool.decide_and, decide_eq_decide, PlacedLine.IsOutside, List.forall_mem_cons, And.comm]
  rfl

theorem LinesFrom.le (lined : LinesFrom size pos lines) : pos ≤ size := by
  induction lined with
  | nil => exact Nat.le_refl _
  | cons forward _ ih => exact Nat.le_trans (Nat.le_of_lt forward) ih

theorem LinesFrom.bounds (lined : LinesFrom size pos lines) (member : line ∈ lines) :
    pos ≤ line.span.start ∧ line.span.start < line.span.stop ∧ line.span.stop ≤ size := by
  induction lined with
  | nil => cases member
  | @cons first rest forward more ih =>
    rcases List.mem_cons.mp member with rfl | later
    · exact ⟨Nat.le_refl _, forward, more.le⟩
    · obtain ⟨after, ahead, within⟩ := ih later
      exact ⟨by omega, ahead, within⟩

theorem LinesFrom.uncons (lined : LinesFrom size pos (line :: rest)) :
    line.span.start = pos ∧ line.span.start < line.span.stop ∧ LinesFrom size line.span.stop rest := by
  cases lined with
  | cons forward more => exact ⟨rfl, forward, more⟩

theorem LinesFrom.suffix (lined : LinesFrom size pos lines) (suffix : rest <:+ lines) :
    ∃ start, pos ≤ start ∧ LinesFrom size start rest := by
  obtain ⟨front, rfl⟩ := suffix
  induction front generalizing pos with
  | nil => exact ⟨pos, Nat.le_refl _, lined⟩
  | cons line front ih =>
    obtain ⟨rfl, forward, more⟩ := lined.uncons
    obtain ⟨start, after, behind⟩ := ih more
    exact ⟨start, by omega, behind⟩

/-- No line comes again behind itself. -/
theorem LinesFrom.not_mem_behind (lined : LinesFrom size pos lines) (suffix : line :: rest <:+ lines) :
    line ∉ rest := by
  intro again
  obtain ⟨start, -, behind⟩ := lined.suffix suffix
  obtain ⟨-, forward, more⟩ := behind.uncons
  have := (more.bounds again).1
  omega

/-! ## Blocks one after the other -/

/-- Where a block ends behind whose opening line some lines are left: with the first line that closes it, or with the
    text. -/
def blockStop (size : Nat) (fence : Fence) (lines : List PlacedLine) : Nat :=
  ((lines.find? fun line => fence.closedBy line.chars).map fun line => line.span.stop).getD size

/-- The lines behind the first one that closes a block. -/
def linesBehind (fence : Fence) (lines : List PlacedLine) : List PlacedLine :=
  (lines.dropWhile fun line => !fence.closedBy line.chars).tail

theorem blockStop_cons_of_closes (size : Nat) (rest : List PlacedLine) (closes : fence.closedBy line.chars = true) :
    blockStop size fence (line :: rest) = line.span.stop ∧ linesBehind fence (line :: rest) = rest := by
  simp [blockStop, linesBehind, closes]

theorem blockStop_cons_of_stays (size : Nat) (rest : List PlacedLine) (stays : fence.closedBy line.chars = false) :
    blockStop size fence (line :: rest) = blockStop size fence rest ∧
      linesBehind fence (line :: rest) = linesBehind fence rest := by
  simp [blockStop, linesBehind, stays]

theorem linesBehind_suffix (fence : Fence) (lines : List PlacedLine) : linesBehind fence lines <:+ lines :=
  (List.tail_suffix _).trans (List.dropWhile_suffix _)

/-- The lines behind a block begin where it ends, and those in it end there at the latest. -/
theorem LinesFrom.behind (lined : LinesFrom size pos lines) (fence : Fence) :
    LinesFrom size (blockStop size fence lines) (linesBehind fence lines) ∧ pos ≤ blockStop size fence lines ∧
      ∃ inner, lines = inner ++ linesBehind fence lines ∧ ∀ line ∈ inner, line.span.stop ≤ blockStop size fence lines := by
  induction lined with
  | nil => exact ⟨.nil, Nat.le_refl _, [], rfl, by simp⟩
  | @cons line rest forward more ih =>
    cases closes : fence.closedBy line.chars with
    | true =>
      obtain ⟨stop, behind⟩ := blockStop_cons_of_closes size rest closes
      rw [stop, behind]
      exact ⟨more, Nat.le_of_lt forward, [line], rfl, by simp⟩
    | false =>
      obtain ⟨stop, behind⟩ := blockStop_cons_of_stays size rest closes
      rw [stop, behind]
      obtain ⟨left, after, inner, whole, within⟩ := ih
      refine ⟨left, by omega, line :: inner, ?_, List.forall_mem_cons.mpr ⟨after, within⟩⟩
      rw [List.cons_append, ← whole]

theorem LinesFrom.mem_behind (lined : LinesFrom size pos lines) (fence : Fence) (member : line ∈ lines) :
    line ∈ linesBehind fence lines ∨ line.span.stop ≤ blockStop size fence lines := by
  obtain ⟨-, -, inner, whole, within⟩ := lined.behind fence
  rw [whole] at member
  exact (List.mem_append.mp member).symm.imp_right (within line)

/-- Of the lines from the opening one on, a block touches all but those behind it. -/
theorem LinesFrom.filter_apart (lined : LinesFrom size pos (line :: rest)) (fence : Fence) :
    (line :: rest).filter (fun other => Span.Apart ⟨line.span.start, blockStop size fence rest⟩ other.span) =
      linesBehind fence rest := by
  obtain ⟨rfl, forward, later⟩ := lined.uncons
  obtain ⟨left, ends, inner, whole, within⟩ := later.behind fence
  have touched : ∀ other ∈ line :: inner, ¬ Span.Apart ⟨line.span.start, blockStop size fence rest⟩ other.span := by
    unfold Span.Apart
    refine List.forall_mem_cons.mpr ⟨by simp only; omega, fun other member => ?_⟩
    have bounds := later.bounds (whole ▸ List.mem_append_left _ member)
    have stops := within other member
    simp only
    omega
  have behind : ∀ other ∈ linesBehind fence rest, Span.Apart ⟨line.span.start, blockStop size fence rest⟩ other.span :=
    fun other member => .inl (left.bounds member).1
  calc (line :: rest).filter _
    _ = ((line :: inner) ++ linesBehind fence rest).filter _ := by rw [List.cons_append, ← whole]
    _ = linesBehind fence rest := by
      rw [List.filter_append, List.filter_eq_nil_iff.mpr (by simpa using touched),
        List.filter_eq_self.mpr (by simpa using behind), List.nil_append]

/-- With an open block the scanner goes on to the line that closes it. -/
theorem fencedZonesFrom_some (start : Nat) :
    fencedZonesFrom size (some (fence, start)) lines =
      ⟨start, blockStop size fence lines⟩ :: fencedZonesFrom size none (linesBehind fence lines) := by
  induction lines with
  | nil => rfl
  | cons line rest ih =>
    rw [fencedZonesFrom]
    cases closes : fence.closedBy line.chars with
    | true =>
      obtain ⟨stop, behind⟩ := blockStop_cons_of_closes size rest closes
      rw [stop, behind, if_pos rfl]
    | false =>
      obtain ⟨stop, behind⟩ := blockStop_cons_of_stays size rest closes
      rw [stop, behind, if_neg Bool.false_ne_true, ih]

/-- The blocks among some lines: a line that is no fence is passed over, and one that is opens a block. -/
inductive FencesFrom (size : Nat) : List PlacedLine → List Span → Prop where
  | done : FencesFrom size [] []
  | text {line : PlacedLine} {rest : List PlacedLine} {spans : List Span}
      (plain : Fence.ofLine? line.chars = none) (more : FencesFrom size rest spans) :
      FencesFrom size (line :: rest) spans
  | block {opening : PlacedLine} {rest : List PlacedLine} {fence : Fence} {spans : List Span}
      (opens : Fence.ofLine? opening.chars = some fence) (more : FencesFrom size (linesBehind fence rest) spans) :
      FencesFrom size (opening :: rest) (⟨opening.span.start, blockStop size fence rest⟩ :: spans)

/-- The scanner finds the blocks. -/
theorem fencesFrom_fencedZonesFrom (size : Nat) (lines : List PlacedLine) :
    FencesFrom size lines (fencedZonesFrom size none lines) := by
  match lines with
  | [] => exact .done
  | line :: rest =>
    rw [fencedZonesFrom]
    cases opens : Fence.ofLine? line.chars with
    | none => exact .text opens (fencesFrom_fencedZonesFrom size rest)
    | some fence =>
      simp only [fencedZonesFrom_some]
      exact .block opens (fencesFrom_fencedZonesFrom size (linesBehind fence rest))
termination_by lines.length
decreasing_by
  · simp
  · have shorter := (linesBehind_suffix fence rest).length_le
    simp only [List.length_cons]
    omega

/-! ## Blocks by what they are -/

/-- A span is a fenced block among some lines: it begins with a line that is a fence, and ends with the first later line
    that closes the block, or with the text if there is none. -/
inductive Fenced (size : Nat) (lines : List PlacedLine) : Span → Prop where
  | intro {opening : PlacedLine} {rest : List PlacedLine} {fence : Fence} (here : opening :: rest <:+ lines)
      (opens : Fence.ofLine? opening.chars = some fence) :
      Fenced size lines ⟨opening.span.start, blockStop size fence rest⟩

/-- Spans are the fenced blocks among some lines: they follow each other without overlap, each of them is a block, and a
    line that is in none of them is no fence. -/
structure Fencing (size : Nat) (lines : List PlacedLine) (spans : List Span) : Prop where
  ascending : Span.Ascending spans
  fenced : ∀ span ∈ spans, Fenced size lines span
  complete : ∀ line ∈ lines, line.IsOutside spans → Fence.ofLine? line.chars = none

theorem Fenced.start_mem (fenced : Fenced size lines span) : ∃ line ∈ lines, span.start = line.span.start := by
  obtain ⟨here, -⟩ := fenced
  exact ⟨_, here.mem List.mem_cons_self, rfl⟩

theorem Fenced.mono (fenced : Fenced size rest span) (suffix : rest <:+ lines) : Fenced size lines span := by
  obtain ⟨here, opens⟩ := fenced
  exact .intro (here.trans suffix) opens

/-- A block that begins behind the end of another one is one of the lines behind that. -/
theorem Fenced.behind (lined : LinesFrom size pos rest) (fenced : Fenced size rest span)
    (after : blockStop size fence rest ≤ span.start) : Fenced size (linesBehind fence rest) span := by
  obtain @⟨opening, later, _, here, opens⟩ := fenced
  have listed := here.mem List.mem_cons_self
  obtain ⟨_, ahead, -⟩ := lined.bounds listed
  have inside : opening ∈ linesBehind fence rest :=
    (lined.mem_behind fence listed).resolve_right fun before => by simp only at after; omega
  refine .intro ?_ opens
  rcases List.suffix_or_suffix_of_suffix here (linesBehind_suffix fence rest) with suffix | longer
  · exact suffix
  · rcases List.suffix_cons_iff.mp longer with same | inner
    · exact same ▸ List.suffix_refl _
    · -- The opening line would come a second time, behind itself.
      exact absurd (inner.mem inside) (lined.not_mem_behind here)

/-- The blocks that the scanner finds are those of the text. -/
theorem FencesFrom.fencing (found : FencesFrom size lines spans) (lined : LinesFrom size pos lines) :
    Fencing size lines spans ∧ ∀ span ∈ spans, pos ≤ span.start := by
  induction found generalizing pos with
  | done => exact ⟨⟨⟨by simp, .nil⟩, by simp, by simp⟩, by simp⟩
  | @text line rest spans plain more ih =>
    obtain ⟨rfl, forward, later⟩ := lined.uncons
    obtain ⟨⟨ascending, fenced, complete⟩, after⟩ := ih later
    refine ⟨⟨ascending, fun span member => (fenced span member).mono (List.suffix_cons _ _),
      List.forall_mem_cons.mpr ⟨fun _ => plain, complete⟩⟩, fun span member => ?_⟩
    have := after span member
    omega
  | @block opening rest fence spans opens more ih =>
    obtain ⟨rfl, forward, later⟩ := lined.uncons
    obtain ⟨left, ends, -⟩ := later.behind fence
    obtain ⟨⟨ascending, fenced, complete⟩, after⟩ := ih left
    refine ⟨⟨⟨?_, ascending.apart.cons after⟩, ?_, ?_⟩, ?_⟩
    · exact List.forall_mem_cons.mpr ⟨Nat.lt_of_lt_of_le forward ends, ascending.forward⟩
    · refine List.forall_mem_cons.mpr ⟨.intro (List.suffix_refl _) opens, fun span member => ?_⟩
      exact (fenced span member).mono ((linesBehind_suffix _ _).trans (List.suffix_cons _ _))
    · intro line member outside
      obtain ⟨apart, others⟩ := List.forall_mem_cons.mp outside
      obtain ⟨behind, ahead, -⟩ := lined.bounds member
      -- The opening line and the lines up to the end of the block are touched by it.
      rcases List.mem_cons.mp member with rfl | inner
      · unfold Span.Apart at apart
        simp only at apart
        omega
      · rcases later.mem_behind fence inner with last | inside
        · exact complete line last others
        · unfold Span.Apart at apart
          simp only at apart
          omega
    · refine List.forall_mem_cons.mpr ⟨Nat.le_refl _, fun span member => ?_⟩
      have := after span member
      omega

/-- Where the first line is a fence, the first block begins with it. -/
theorem Fencing.begins (fencing : Fencing size (line :: rest) others) (lined : LinesFrom size pos (line :: rest))
    (opens : Fence.ofLine? line.chars = some fence) :
    ∃ behind, others = ⟨line.span.start, blockStop size fence rest⟩ :: behind := by
  -- The line is a fence, so some block touches it, and that block cannot begin behind it.
  have touched : ¬ line.IsOutside others := fun outside => by
    rw [fencing.complete line List.mem_cons_self outside] at opens
    cases opens
  simp only [PlacedLine.IsOutside, not_forall] at touched
  obtain ⟨span, member, touches⟩ := touched
  obtain ⟨rfl, forward, later⟩ := lined.uncons
  have first : span = ⟨line.span.start, blockStop size fence rest⟩ := by
    obtain ⟨here, opens'⟩ := fencing.fenced span member
    rcases List.suffix_cons_iff.mp here with same | inner
    · obtain ⟨rfl, rfl⟩ := List.cons.inj same
      rw [opens] at opens'
      rw [Option.some.inj opens']
    · have after := (later.bounds (inner.mem List.mem_cons_self)).1
      exact absurd (.inr after) touches
  obtain ⟨before, behind, rfl⟩ := List.append_of_mem member
  cases before with
  | nil => exact ⟨behind, by rw [← first]; rfl⟩
  | cons earlier before =>
    -- No block lies in front of the first line.
    obtain ⟨opening, listed, starts⟩ := (fencing.fenced earlier List.mem_cons_self).start_mem
    have notBefore := (lined.bounds listed).1
    have ahead := fencing.ascending.forward earlier List.mem_cons_self
    have apart := (List.pairwise_cons.mp fencing.ascending.apart).1 span (by simp)
    rw [first] at apart
    simp only at apart
    omega

/-- There is only one way to divide a text in fenced blocks and other lines. -/
theorem FencesFrom.unique (found : FencesFrom size lines spans) (lined : LinesFrom size pos lines)
    (other : Fencing size lines others) : others = spans := by
  induction found generalizing pos others with
  | done =>
    refine List.eq_nil_iff_forall_not_mem.mpr fun span member => ?_
    obtain ⟨line, listed, -⟩ := (other.fenced span member).start_mem
    cases listed
  | @text line rest spans plain more ih =>
    obtain ⟨rfl, forward, later⟩ := lined.uncons
    refine ih later ⟨other.ascending, fun span member => ?_,
      fun inner listed => other.complete inner (List.mem_cons_of_mem _ listed)⟩
    obtain ⟨here, opens⟩ := other.fenced span member
    rcases List.suffix_cons_iff.mp here with same | inner
    · -- The line is no fence, so no block of the others begins with it.
      obtain ⟨rfl, rfl⟩ := List.cons.inj same
      rw [plain] at opens
      cases opens
    · exact .intro inner opens
  | @block opening rest fence spans opens more ih =>
    obtain ⟨rfl, forward, later⟩ := lined.uncons
    obtain ⟨left, ends, -⟩ := later.behind fence
    -- Both begin with the same block; what is left of the others are the blocks of the lines behind it.
    obtain ⟨behind, rfl⟩ := other.begins lined opens
    have ascending := other.ascending
    have apart := List.pairwise_cons.mp ascending.apart
    rw [ih left ⟨⟨fun span member => ascending.forward span (List.mem_cons_of_mem _ member), apart.2⟩, ?_, ?_⟩]
    · intro span member
      have after := apart.1 span member
      obtain ⟨here, opens'⟩ := other.fenced span (List.mem_cons_of_mem _ member)
      rcases List.suffix_cons_iff.mp here with same | inner
      · -- It begins with the opening line again, in front of where the first block ends.
        obtain ⟨rfl, -⟩ := List.cons.inj same
        simp only at after
        omega
      · exact (Fenced.intro inner opens').behind later after
    · intro line listed outside
      refine other.complete line (List.mem_cons_of_mem _ ((linesBehind_suffix _ _).mem listed)) ?_
      exact List.forall_mem_cons.mpr ⟨.inl (left.bounds listed).1, outside⟩

/-- The spans that the scanner finds are the fenced blocks, and no others are. -/
theorem FencesFrom.fencing_iff (found : FencesFrom size lines spans) (lined : LinesFrom size pos lines) :
    Fencing size lines others ↔ others = spans :=
  ⟨found.unique lined, fun same => same ▸ (found.fencing lined).1⟩

/-! ## The fenced blocks of a text -/

/-- A line is a part of a block as a whole, or no block touches it. -/
theorem FencesFrom.whole_lines (found : FencesFrom size lines spans) (lined : LinesFrom size pos lines) :
    ∀ line ∈ lines, line.IsOutside spans ∨ ∃ span ∈ spans, span.start ≤ line.span.start ∧ line.span.stop ≤ span.stop := by
  induction found generalizing pos with
  | done => simp
  | @text line rest spans plain more ih =>
    obtain ⟨rfl, forward, later⟩ := lined.uncons
    refine List.forall_mem_cons.mpr ⟨.inl fun span member => .inr ?_, ih later⟩
    exact (more.fencing later).2 span member
  | @block opening rest fence spans opens more ih =>
    obtain ⟨rfl, forward, later⟩ := lined.uncons
    obtain ⟨left, ends, -⟩ := later.behind fence
    refine List.forall_mem_cons.mpr ⟨.inr ⟨_, List.mem_cons_self, Nat.le_refl _, ends⟩, fun line listed => ?_⟩
    rcases later.mem_behind fence listed with behind | inside
    · rcases ih left line behind with outside | ⟨span, member, holds⟩
      · exact .inl (List.forall_mem_cons.mpr ⟨.inl (left.bounds behind).1, outside⟩)
      · exact .inr ⟨span, List.mem_cons_of_mem _ member, holds⟩
    · refine .inr ⟨_, List.mem_cons_self, ?_, inside⟩
      have := (later.bounds listed).1
      simp only
      omega

/-- A block ends with one of its lines. -/
theorem LinesFrom.blockStop_mem (lined : LinesFrom size pos lines) (fence : Fence) :
    blockStop size fence lines = pos ∨ ∃ line ∈ lines, blockStop size fence lines = line.span.stop := by
  induction lined with
  | nil => exact .inl rfl
  | @cons line rest forward more ih =>
    right
    cases closes : fence.closedBy line.chars with
    | true => exact ⟨line, List.mem_cons_self, (blockStop_cons_of_closes _ _ closes).1⟩
    | false =>
      rw [(blockStop_cons_of_stays _ _ closes).1]
      rcases ih with same | ⟨last, listed, same⟩
      · exact ⟨line, List.mem_cons_self, same⟩
      · exact ⟨last, List.mem_cons_of_mem _ listed, same⟩

/-- A block begins with one line and ends with another one, or with the same. -/
theorem Fenced.first_last (fenced : Fenced size lines span) (lined : LinesFrom size pos lines) :
    ∃ first ∈ lines, ∃ last ∈ lines, span = ⟨first.span.start, last.span.stop⟩ := by
  obtain @⟨opening, rest, fence, here, -⟩ := fenced
  have listed := here.mem List.mem_cons_self
  obtain ⟨_, -, behind⟩ := lined.suffix here
  rcases behind.uncons.2.2.blockStop_mem fence with same | ⟨last, inRest, same⟩
  · exact ⟨opening, listed, opening, listed, by rw [same]⟩
  · exact ⟨opening, listed, last, here.mem (List.mem_cons_of_mem _ inRest), by rw [same]⟩

theorem first_last_of_mem_fencedZones {text : String} {span : Span} (member : span ∈ fencedZones text) :
    ∃ first ∈ placedLines text, ∃ last ∈ placedLines text, span = ⟨first.span.start, last.span.stop⟩ := by
  have lined := linesFrom_placedLines text
  have found : FencesFrom text.utf8ByteSize (placedLines text) (fencedZones text) := fencesFrom_fencedZonesFrom _ _
  exact ((found.fencing lined).1.fenced span member).first_last lined

/-- The spans that are found in a text are its fenced blocks. Each of them consists of whole lines, from the one that opens
    the block to the first one behind it that closes it, or to the last line of the text; they follow each other without
    overlap, and a line that is in none of them is no fence. -/
theorem fencedZones_are_fences (text : String) :
    (∀ spans, Fencing text.utf8ByteSize (placedLines text) spans ↔ spans = fencedZones text) ∧
      (∀ span ∈ fencedZones text, ∃ first ∈ placedLines text, ∃ last ∈ placedLines text,
        span = ⟨first.span.start, last.span.stop⟩) ∧
      ∀ line ∈ placedLines text, line.IsOutside (fencedZones text) ∨
        ∃ span ∈ fencedZones text, span.start ≤ line.span.start ∧ line.span.stop ≤ span.stop := by
  have lined := linesFrom_placedLines text
  have found : FencesFrom text.utf8ByteSize (placedLines text) (fencedZones text) := fencesFrom_fencedZonesFrom _ _
  exact ⟨fun spans => found.fencing_iff lined, fun _ => first_last_of_mem_fencedZones, found.whole_lines lined⟩

/-- A fence of tildes closes no block of backticks, and a longer fence of backticks does. The last block runs to the end. -/
theorem fences_of_both_kinds :
    let text := "```\n~~~\n````\na\n~~~\nb"
    fencedZones text = [⟨0, 13⟩, ⟨15, 20⟩] ∧ Fencing 20 (placedLines text) [⟨0, 13⟩, ⟨15, 20⟩] := by
  intro text
  have zones : fencedZones text = [⟨0, 13⟩, ⟨15, 20⟩] := by decide
  exact ⟨zones, ((fencedZones_are_fences text).1 _).mpr zones.symm⟩

end Galley.Source
