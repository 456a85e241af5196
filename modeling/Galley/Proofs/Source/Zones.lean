import Galley.Proofs.Source.Boundary
import Galley.Proofs.Source.Lookup
import Galley.Source.CodeZones

/-!
# Code zones are apart

Fenced blocks are found line by line, code spans byte by byte. A code span ends in front of the next fenced
block, and a run of backticks cannot lead into one, because a block begins where a line begins.

* `linesFrom_placedLines` — the lines of a text follow each other from its first byte to its last;
* `fencedZones_ascending` — fenced blocks follow each other without overlap;
* `apart_of_mem_codeSpans` — a code span overlaps no fenced block;
* `codeZones_ascending` — all zones follow each other without overlap;
* `codeZones_eq_nil` — without backticks and tildes there are none.
-/

namespace Galley.Text

theorem flatten_linesWithEnds_go (cs line : List Char) :
    (linesWithEnds.go cs line).flatten = line.reverse ++ cs := by
  induction cs generalizing line with
  | nil =>
    cases line with
    | nil => rfl
    | cons c rest => simp [linesWithEnds.go]
  | cons c rest ih =>
    unfold linesWithEnds.go
    split <;> simp [ih]

/-- The lines of a text are all of it. -/
theorem flatten_linesWithEnds (cs : List Char) : (linesWithEnds cs).flatten = cs :=
  flatten_linesWithEnds_go cs []

/-- Lines of which only the last can lack its line feed, and none is empty. No line feed stands in a line. -/
inductive FullLines : List (List Char) → Prop where
  | nil : FullLines []
  | last {line : List Char} (some : line ≠ []) (plain : '\n' ∉ line) : FullLines [line]
  | cons {line : List Char} {rest : List (List Char)} (plain : '\n' ∉ line) (more : FullLines rest) :
      FullLines ((line ++ ['\n']) :: rest)

theorem fullLines_linesWithEnds (cs : List Char) : FullLines (linesWithEnds cs) := by
  suffices all : ∀ line, '\n' ∉ line → FullLines (linesWithEnds.go cs line) from all [] (by simp)
  intro line plain
  induction cs generalizing line with
  | nil =>
    cases line with
    | nil => exact .nil
    | cons c rest => exact .last (by simp) (by rwa [List.mem_reverse])
  | cons c rest ih =>
    unfold linesWithEnds.go
    split
    · rename_i isBreak
      rw [beq_iff_eq] at isBreak
      rw [isBreak, List.reverse_cons]
      exact .cons (by rwa [List.mem_reverse]) (ih [] (by simp))
    · rename_i noBreak
      refine ih (c :: line) fun member => ?_
      rcases List.mem_cons.mp member with rfl | before
      · exact noBreak rfl
      · exact plain before

theorem byteLength_pos {cs : List Char} (some : cs ≠ []) : 0 < byteLength cs := by
  rcases Nat.eq_zero_or_pos (byteLength cs) with zero | positive
  · exact absurd (eq_nil_of_byteLength_eq_zero zero) some
  · exact positive

/-- An ASCII character is found among the bytes of a text where its place is. -/
theorem getElem?_bytes_of_ascii {text : String} {front back : List Char} {c : Char}
    (whole : text.toList = front ++ c :: back) (ascii : c.utf8Size = 1) :
    (bytes text)[byteLength front]? = some c.val.toUInt8 := by
  rw [← Array.getElem?_toList, toList_bytes, whole, List.flatMap_append, List.flatMap_cons,
    List.getElem?_append_right (Nat.le_of_eq (length_encoded front)), length_encoded, Nat.sub_self,
    String.utf8EncodeChar_eq_singleton ascii]
  rfl

end Galley.Text

namespace Galley.Source

open Galley.Text (byteLength FullLines)

/-! ## Lines -/

/-- Lines that follow each other without a gap, from one place to another. -/
inductive LinesFrom (stop : Nat) : Nat → List PlacedLine → Prop where
  | nil : LinesFrom stop stop []
  | cons {line : PlacedLine} {rest : List PlacedLine} (forward : line.span.start < line.span.stop)
      (more : LinesFrom stop line.span.stop rest) : LinesFrom stop line.span.start (line :: rest)

/-- A place in a text at which a line begins: its start, or behind a line feed. -/
def IsLineStart (bytes : Array UInt8) (pos : Nat) : Prop :=
  pos = 0 ∨ bytes[pos - 1]? = some 0x0a

theorem linesFrom_go {lines : List (List Char)} (full : FullLines lines) (offset : Nat) :
    LinesFrom (offset + byteLength lines.flatten) offset (placedLines.go offset lines) := by
  induction full generalizing offset with
  | nil => exact .nil
  | last some =>
    rw [List.flatten_cons, List.flatten_nil, List.append_nil]
    have positive := Text.byteLength_pos some
    exact @LinesFrom.cons _ ⟨_, ⟨offset, _⟩⟩ _ (by simp only; omega) .nil
  | @cons line rest _ more ih =>
    have positive : 0 < byteLength (line ++ ['\n']) := Text.byteLength_pos (by simp)
    rw [List.flatten_cons, Text.byteLength_append (line ++ ['\n']), ← Nat.add_assoc]
    exact @LinesFrom.cons _ ⟨_, ⟨offset, _⟩⟩ _ (by simp only; omega) (ih _)

/-- The lines of a text follow each other from its first byte to its last. -/
theorem linesFrom_placedLines (text : String) :
    LinesFrom text.utf8ByteSize 0 (placedLines text) := by
  have lines := linesFrom_go (Text.fullLines_linesWithEnds text.toList) 0
  rw [Text.flatten_linesWithEnds, Nat.zero_add, ← Text.size_bytes] at lines
  exact lines

theorem isLineStart_of_mem_go {text : String} {lines : List (List Char)} (full : FullLines lines)
    (front : List Char) (whole : text.toList = front ++ lines.flatten)
    (starts : IsLineStart (Text.bytes text) (byteLength front)) :
    ∀ line ∈ placedLines.go (byteLength front) lines, IsLineStart (Text.bytes text) line.span.start := by
  induction full generalizing front with
  | nil =>
    intro line member
    cases member
  | last some =>
    intro line member
    rw [List.mem_singleton.mp member]
    exact starts
  | @cons line rest _ more ih =>
    intro found member
    rcases List.mem_cons.mp member with rfl | later
    · exact starts
    · rw [← Text.byteLength_append] at later
      refine ih (front ++ (line ++ ['\n'])) (by simpa using whole) (Or.inr ?_) found later
      have feed : text.toList = (front ++ line) ++ '\n' :: rest.flatten := by simpa using whole
      have byte := Text.getElem?_bytes_of_ascii feed (by decide)
      have one : byteLength ['\n'] = 1 := by decide
      rwa [← List.append_assoc, Text.byteLength_append _ ['\n'], one, Nat.add_sub_cancel]

/-- Every line begins where a line begins. -/
theorem isLineStart_of_mem_placedLines {text : String} {line : PlacedLine}
    (member : line ∈ placedLines text) : IsLineStart (Text.bytes text) line.span.start :=
  isLineStart_of_mem_go (Text.fullLines_linesWithEnds _) [] (by rw [Text.flatten_linesWithEnds]; rfl)
    (Or.inl rfl) line member

/-! ## Fenced blocks -/

/-- Fenced blocks begin with a line, and follow each other without overlap. An open block begins in front of
    the lines that are left. -/
theorem fencedZonesFrom_spec {size pos : Nat} {lines : List PlacedLine} (lined : LinesFrom size pos lines) :
    (∀ span ∈ fencedZonesFrom size none lines,
        pos ≤ span.start ∧ span.start < span.stop ∧ ∃ line ∈ lines, span.start = line.span.start) ∧
      (fencedZonesFrom size none lines).Pairwise (fun a b => a.stop ≤ b.start) ∧
      ∀ fence start, start < pos →
        (∀ span ∈ fencedZonesFrom size (some (fence, start)) lines,
          start ≤ span.start ∧ span.start < span.stop ∧
            (span.start = start ∨ ∃ line ∈ lines, span.start = line.span.start)) ∧
        (fencedZonesFrom size (some (fence, start)) lines).Pairwise (fun a b => a.stop ≤ b.start) := by
  induction lined with
  | nil =>
    refine ⟨by simp [fencedZonesFrom], by simp [fencedZonesFrom], fun fence start before => ⟨?_, ?_⟩⟩
    · intro span member
      rw [fencedZonesFrom, List.mem_singleton] at member
      subst member
      exact ⟨Nat.le_refl _, before, Or.inl rfl⟩
    · exact List.pairwise_singleton _ _
  | @cons line rest forward more ih =>
    obtain ⟨closedSpans, closedApart, opened⟩ := ih
    refine ⟨?_, ?_, fun fence start before => ?_⟩
    · intro span member
      rw [fencedZonesFrom] at member
      split at member
      · obtain ⟨after, ahead, begins⟩ := (opened _ _ forward).1 span member
        refine ⟨after, ahead, ?_⟩
        rcases begins with here | ⟨other, later, same⟩
        · exact ⟨line, List.mem_cons_self, here⟩
        · exact ⟨other, List.mem_cons_of_mem _ later, same⟩
      · obtain ⟨after, ahead, other, later, same⟩ := closedSpans span member
        exact ⟨by omega, ahead, other, List.mem_cons_of_mem _ later, same⟩
    · rw [fencedZonesFrom]
      split
      · exact (opened _ _ forward).2
      · exact closedApart
    · rw [fencedZonesFrom]
      split
      · refine ⟨fun span member => ?_, List.Pairwise.cons (fun span later => ?_) closedApart⟩
        · rcases List.mem_cons.mp member with rfl | later
          · exact ⟨Nat.le_refl _, by simp only; omega, Or.inl rfl⟩
          · obtain ⟨after, ahead, other, within, same⟩ := closedSpans span later
            exact ⟨by omega, ahead, Or.inr ⟨other, List.mem_cons_of_mem _ within, same⟩⟩
        · exact (closedSpans span later).1
      · obtain ⟨spans, apart⟩ := opened fence start (by omega)
        refine ⟨fun span member => ?_, apart⟩
        obtain ⟨after, ahead, begins⟩ := spans span member
        refine ⟨after, ahead, begins.imp_right ?_⟩
        rintro ⟨other, later, same⟩
        exact ⟨other, List.mem_cons_of_mem _ later, same⟩

/-- Fenced blocks are not empty and follow each other without overlap. -/
theorem fencedZones_ascending (text : String) : Span.Ascending (fencedZones text) where
  forward span member := ((fencedZonesFrom_spec (linesFrom_placedLines text)).1 span member).2.1
  apart := (fencedZonesFrom_spec (linesFrom_placedLines text)).2.1

/-- A fenced block begins with a line. -/
theorem isLineStart_of_mem_fencedZones {text : String} {span : Span} (member : span ∈ fencedZones text) :
    IsLineStart (Text.bytes text) span.start := by
  obtain ⟨-, -, line, listed, same⟩ :=
    (fencedZonesFrom_spec (linesFrom_placedLines text)).1 span member
  rw [same]
  exact isLineStart_of_mem_placedLines listed

/-! ## Code spans -/

variable {bytes : Array UInt8} {pos : Nat}

/-- A run holds nothing but backticks. -/
theorem getElem?_of_lt_backtickRun {q : Nat} (after : pos ≤ q) (before : q < pos + backtickRun bytes pos) :
    bytes[q]? = some backtickByte := by
  fun_induction backtickRun bytes pos with
  | case1 pos inside isTick ih =>
    rcases Nat.eq_or_lt_of_le after with rfl | later
    · rw [Array.getElem?_eq_getElem inside, isTick]
    · exact ih later (by omega)
  | case2 => omega
  | case3 => omega

/-- A closing run lies between the place where the search began and the limit. -/
theorem closingRun?_spec {limit length found : Nat} (h : closingRun? bytes limit length pos = some found) :
    pos ≤ found ∧ found + length ≤ limit ∧ backtickRun bytes found = length := by
  fun_induction closingRun? bytes limit length pos with
  | case1 pos inside isTick run closes =>
    simp only [Option.some.injEq] at h
    subst h
    exact ⟨Nat.le_refl _, by omega, closes.1⟩
  | case2 pos inside isTick run other positive ih =>
    obtain ⟨after, within, same⟩ := ih h
    exact ⟨by omega, within, same⟩
  | case3 pos inside noTick ih =>
    obtain ⟨after, within, same⟩ := ih h
    exact ⟨by omega, within, same⟩
  | case4 => simp at h

/-- Where a code span has to end at the latest there begins no fenced block before. -/
theorem le_start_of_nextFence {fences : List Span} (ascending : Span.Ascending fences) {from' size : Nat}
    {fence : Span} (member : fence ∈ fences) (after : from' ≤ fence.start) :
    ((fences.toArray.find? fun fence => from' ≤ fence.start).map Span.start).getD size ≤ fence.start := by
  rw [List.find?_toArray]
  cases found : fences.find? fun fence => from' ≤ fence.start with
  | none =>
    rw [List.find?_eq_none] at found
    exact absurd (by simpa using after) (found fence member)
  | some first =>
    rw [Option.map_some, Option.getD_some]
    obtain ⟨-, i, bound, rfl, earlier⟩ := List.find?_eq_some_iff_getElem.mp found
    obtain ⟨j, bound', rfl⟩ := List.mem_iff_getElem.mp member
    rcases Nat.lt_trichotomy j i with before | rfl | behind
    · exact absurd (by simpa using after) (by simpa using earlier j before)
    · exact Nat.le_refl _
    · have apart := List.pairwise_iff_getElem.mp ascending.apart i j bound bound' behind
      have forward := ascending.forward _ (List.getElem_mem bound)
      omega

/-- From a place outside the fenced blocks a run of backticks does not lead into one. -/
theorem fence_beside_run {fences : List Span} (ascending : Span.Ascending fences)
    (lined : ∀ fence ∈ fences, IsLineStart bytes fence.start)
    (uncovered : spanAt? fences.toArray pos = none) {fence : Span} (member : fence ∈ fences) :
    fence.stop ≤ pos ∨ pos + backtickRun bytes pos ≤ fence.start := by
  have outside := not_covers_of_spanAt?_eq_none ascending uncovered member
  simp only [Span.covers, Bool.and_eq_false_imp, decide_eq_true_eq, decide_eq_false_iff_not] at outside
  by_cases started : fence.start ≤ pos
  · have := outside started
    exact Or.inl (by omega)
  · refine Or.inr (Nat.le_of_not_lt fun inside => ?_)
    rcases lined fence member with zero | feed
    · omega
    · -- The byte in front of the block is a line feed, but it would lie in the run.
      rw [getElem?_of_lt_backtickRun (show pos ≤ fence.start - 1 by omega) (by omega)] at feed
      exact absurd feed (by decide)

/-- Code spans lie outside the fenced blocks, and are not empty. -/
theorem codeSpansFrom_spec {fences : List Span} (ascending : Span.Ascending fences)
    (lined : ∀ fence ∈ fences, IsLineStart bytes fence.start) {blanks : List Nat} {span : Span}
    (member : span ∈ codeSpansFrom bytes fences.toArray blanks pos) :
    pos ≤ span.start ∧ span.start < span.stop ∧
      ∀ fence ∈ fences, span.stop ≤ fence.start ∨ fence.stop ≤ span.start := by
  fun_induction codeSpansFrom bytes fences.toArray blanks pos with
  | case1 pos inside fence covered forward ih =>
    obtain ⟨after, others⟩ := ih member
    exact ⟨by omega, others⟩
  | case2 => simp at member
  | case3 pos inside uncovered isSlash ih =>
    obtain ⟨after, others⟩ := ih member
    exact ⟨by omega, others⟩
  | case4 pos inside uncovered noSlash isTick run positive from' nextFence nextBlank close closes ih =>
    obtain ⟨after, within, same⟩ := closingRun?_spec closes
    rcases List.mem_cons.mp member with rfl | later
    · refine ⟨Nat.le_refl _, by simp only; omega, fun fence listed => ?_⟩
      rcases fence_beside_run ascending lined uncovered listed with behind | ahead
      · exact Or.inr behind
      · have next : nextFence ≤ fence.start := le_start_of_nextFence ascending listed ahead
        exact Or.inl (by simp only; omega)
    · rw [if_pos (by omega)] at later
      obtain ⟨after', others⟩ := ih (by omega) later
      exact ⟨by omega, others⟩
  | case5 pos inside uncovered noSlash isTick run positive from' nextFence nextBlank unclosed ih =>
    obtain ⟨after, others⟩ := ih member
    exact ⟨by omega, others⟩
  | case6 pos inside uncovered noSlash noTick ih =>
    obtain ⟨after, others⟩ := ih member
    exact ⟨by omega, others⟩
  | case7 => simp at member

theorem codeSpansFrom_apart {fences : List Span} (ascending : Span.Ascending fences)
    (lined : ∀ fence ∈ fences, IsLineStart bytes fence.start) {blanks : List Nat} :
    (codeSpansFrom bytes fences.toArray blanks pos).Pairwise fun a b => a.stop ≤ b.start := by
  fun_induction codeSpansFrom bytes fences.toArray blanks pos with
  | case1 pos inside fence covered forward ih => exact ih
  | case2 => exact List.Pairwise.nil
  | case3 pos inside uncovered isSlash ih => exact ih
  | case4 pos inside uncovered noSlash isTick run positive from' nextFence nextBlank close closes ih =>
    obtain ⟨after, -, -⟩ := closingRun?_spec closes
    rw [if_pos (by omega)]
    refine List.Pairwise.cons (fun span member => ?_) (ih (by omega))
    exact (codeSpansFrom_spec ascending lined member).1
  | case5 pos inside uncovered noSlash isTick run positive from' nextFence nextBlank unclosed ih => exact ih
  | case6 pos inside uncovered noSlash noTick ih => exact ih
  | case7 => exact List.Pairwise.nil

/-- A code span is not empty and overlaps no fenced block. -/
theorem apart_of_mem_codeSpans {text : String} {span : Span}
    (member : span ∈ codeSpans text (fencedZones text)) :
    span.start < span.stop ∧
      ∀ fence ∈ fencedZones text, span.stop ≤ fence.start ∨ fence.stop ≤ span.start :=
  (codeSpansFrom_spec (fencedZones_ascending text) (fun _ => isLineStart_of_mem_fencedZones) member).2

/-! ## All zones -/

/-- Two spans do not overlap, whichever comes first. -/
def Span.Apart (a b : Span) : Prop := a.stop ≤ b.start ∨ b.stop ≤ a.start

/-- Spans that do not overlap and are in order follow each other. -/
theorem Span.Ascending.of_sorted {spans : List Span} (forward : ∀ span ∈ spans, span.start < span.stop)
    (sorted : spans.Pairwise fun a b => a.start ≤ b.start) (apart : spans.Pairwise Span.Apart) :
    Span.Ascending spans where
  forward := forward
  apart := by
    refine (sorted.and apart).imp_of_mem fun {a b} _ hb ⟨order, apart⟩ => ?_
    have ahead := forward b hb
    rcases apart with before | behind <;> omega

theorem Span.sorted_pairwise (spans : List Span) :
    (Span.sorted spans).Pairwise fun a b => a.start ≤ b.start := by
  have sorted := @List.pairwise_mergeSort _ Span.le
    (fun a b c => by simp only [Span.le, Bool.or_eq_true, Bool.and_eq_true, decide_eq_true_eq, beq_iff_eq]; omega)
    (fun a b => by simp only [Span.le, Bool.or_eq_true, Bool.and_eq_true, decide_eq_true_eq, beq_iff_eq]; omega)
  refine (sorted spans).imp fun {a b} h => ?_
  simp only [Span.le, Bool.or_eq_true, Bool.and_eq_true, decide_eq_true_eq, beq_iff_eq] at h
  omega

/-- The zones of a text are its fenced blocks and its code spans. -/
theorem mem_codeZones {text : String} {span : Span} :
    span ∈ codeZones text ↔ span ∈ codeSpans text (fencedZones text) ∨ span ∈ fencedZones text := by
  simp only [codeZones, Span.sorted, (List.mergeSort_perm _ _).mem_iff, List.mem_append]

/-- The zones of a text are not empty and follow each other without overlap. -/
theorem codeZones_ascending (text : String) : Span.Ascending (codeZones text) := by
  have symmetric : ∀ {a b : Span}, a.Apart b → b.Apart a := fun h => h.symm
  have fences := fencedZones_ascending text
  refine .of_sorted (fun span member => ?_) (Span.sorted_pairwise _) ?_
  · rcases mem_codeZones.mp member with code | fence
    · exact (apart_of_mem_codeSpans code).1
    · exact fences.forward span fence
  · refine ((List.mergeSort_perm _ _).pairwise_iff symmetric).mpr (List.pairwise_append.mpr ⟨?_, ?_, ?_⟩)
    · exact (codeSpansFrom_apart fences fun _ => isLineStart_of_mem_fencedZones).imp Or.inl
    · exact fences.apart.imp Or.inl
    · intro code hcode fence hfence
      exact (apart_of_mem_codeSpans hcode).2 fence hfence

/-! ## Texts without code -/

/-- A fence holds backticks or tildes. -/
theorem ofLine?_eq_none {line : List Char} (plain : ∀ c ∈ line, FenceMark.ofChar? c = none) :
    Fence.ofLine? line = none := by
  unfold Fence.ofLine?
  simp only
  split
  · rfl
  · split
    · rfl
    · rename_i first rest body
      have member : first ∈ (Text.dropEndWhile Fence.isLineEnd line).dropWhile (· == ' ') := by
        rw [body]
        exact List.mem_cons_self
      have inLine : first ∈ line := by
        have kept := (List.dropWhile_sublist _).mem member
        rw [Text.dropEndWhile, List.mem_reverse] at kept
        exact List.mem_reverse.mp ((List.dropWhile_sublist _).mem kept)
      rw [plain first inLine]

theorem fencedZonesFrom_eq_nil {size : Nat} {lines : List PlacedLine}
    (plain : ∀ line ∈ lines, Fence.ofLine? line.chars = none) : fencedZonesFrom size none lines = [] := by
  induction lines with
  | nil => rfl
  | cons line rest ih =>
    rw [fencedZonesFrom, plain line List.mem_cons_self]
    exact ih fun other later => plain other (List.mem_cons_of_mem _ later)

theorem chars_of_mem_go {offset : Nat} {lines : List (List Char)} {line : PlacedLine}
    (member : line ∈ placedLines.go offset lines) : line.chars ∈ lines := by
  induction lines generalizing offset with
  | nil => cases member
  | cons first rest ih =>
    rcases List.mem_cons.mp member with rfl | later
    · exact List.mem_cons_self
    · exact List.mem_cons_of_mem _ (ih later)

theorem codeSpansFrom_eq_nil (plain : ∀ q : Nat, bytes[q]? ≠ some backtickByte) {blanks : List Nat} :
    codeSpansFrom bytes #[] blanks pos = [] := by
  fun_induction codeSpansFrom bytes #[] blanks pos with
  | case1 _ _ _ covered | case2 _ _ _ covered => simp [spanAt?] at covered
  | case4 _ _ _ _ isTick | case5 _ _ _ _ isTick => exact absurd isTick (plain _)
  | case3 _ _ _ _ ih | case6 _ _ _ _ _ ih => exact ih
  | case7 => rfl

/-- A text without backticks and tildes has no code zones. -/
theorem codeZones_eq_nil {text : String} (plain : ∀ c ∈ text.toList, FenceMark.ofChar? c = none) :
    codeZones text = [] := by
  have fences : fencedZones text = [] := fencedZonesFrom_eq_nil fun line member => by
    refine ofLine?_eq_none fun c inLine => plain c ?_
    rw [← Text.flatten_linesWithEnds text.toList]
    exact List.mem_flatten.mpr ⟨line.chars, chars_of_mem_go member, inLine⟩
  have spans : codeSpans text [] = [] := codeSpansFrom_eq_nil fun q found => by
    obtain ⟨front, back, whole, -⟩ := Text.split_at_ascii_byte found (by decide)
    have tick := plain '\x60' (by rw [whole]; exact List.mem_append_right _ List.mem_cons_self)
    cases tick
  rw [codeZones, fences, spans, List.nil_append, Span.sorted, List.mergeSort_nil]

end Galley.Source
