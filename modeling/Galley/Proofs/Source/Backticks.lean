import Galley.Proofs.Source.Fences
import Galley.Proofs.Source.Grammar

/-!
# Code spans by their runs of backticks

The scanner leaps from run to run and computes a limit for the closing one. Said without it, one step from a place leads
behind the fenced block in which it lies, behind an escaped byte, behind a code span, or behind a run that nothing closes.

* `TicksAt`, `RunAt` — backticks from a place on, and runs of them;
* `ClosesCode` — a run that can close a code span: no fenced block and no blank line begins before its end;
* `CodeStep`, `CodeFrom` — one step, and the code spans from a place on; `codeFrom_iff`, the scanner finds them;
* `finds_closingRun?`, `closesCode_iff` — the search for the closing run, and its limit;
* `codeSpans_pair_runs` — so it is for a whole text, and what follows for all zones.
-/

namespace Galley.Source

open Galley.Text (IsBoundary byteLength)

variable {bytes : Array UInt8} {pos limit length next : Nat} {text : String} {span : Span} {found spans : List Span}

/-! ## Runs -/

/-- So many backticks stand from a place on, and no more. -/
structure TicksAt (bytes : Array UInt8) (pos length : Nat) : Prop where
  ticks : ∀ q, pos ≤ q → q < pos + length → bytes[q]? = some backtickByte
  ends : bytes[pos + length]? ≠ some backtickByte

/-- A run of backticks: so many from a place on, and none in front of it. -/
structure RunAt (bytes : Array UInt8) (pos length : Nat) : Prop extends TicksAt bytes pos length where
  begins : 0 < pos → bytes[pos - 1]? ≠ some backtickByte

theorem ticksAt_backtickRun (bytes : Array UInt8) (pos : Nat) : TicksAt bytes pos (backtickRun bytes pos) where
  ticks _ after before := getElem?_of_lt_backtickRun after before
  ends := by
    fun_induction backtickRun bytes pos with
    | case1 pos inside isTick ih => rwa [Nat.add_comm _ 1, ← Nat.add_assoc]
    | case2 pos inside noTick => simpa [Array.getElem?_eq_getElem inside] using noTick
    | case3 pos past => simp [Array.getElem?_eq_none (Nat.le_of_not_lt past)]

theorem TicksAt.unique {a b : Nat} (first : TicksAt bytes pos a) (other : TicksAt bytes pos b) : a = b := by
  rcases Nat.lt_trichotomy a b with less | same | more
  · exact absurd (other.ticks _ (by omega) (by omega)) first.ends
  · exact same
  · exact absurd (first.ticks _ (by omega) (by omega)) other.ends

theorem TicksAt.first (ticks : TicksAt bytes pos length) (some : 0 < length) :
    bytes[pos]? = .some backtickByte := ticks.ticks pos (Nat.le_refl _) (by omega)

theorem TicksAt.last (ticks : TicksAt bytes pos length) (some : 0 < length) :
    bytes[pos + length - 1]? = .some backtickByte := ticks.ticks _ (by omega) (by omega)

theorem TicksAt.inside (ticks : TicksAt bytes pos length) (some : 0 < length) : pos + length ≤ bytes.size := by
  have := (Array.getElem?_eq_some_iff.mp (ticks.last some)).1
  omega

theorem TicksAt.no_slash (ticks : TicksAt bytes pos length) (some : 0 < length) :
    bytes[pos]? ≠ .some backslashByte := by
  rw [ticks.first some]
  decide

/-- The search for the closing run finds the first one of its length in front of the limit, if it begins at a place that
    is not in the middle of a run. -/
theorem finds_closingRun? (some : 0 < length)
    (fresh : bytes[pos]? = .some backtickByte → 0 < pos → bytes[pos - 1]? ≠ .some backtickByte) :
    Finds (fun q => RunAt bytes q length ∧ q + length ≤ limit) pos (closingRun? bytes limit length pos) := by
  have ticks := ticksAt_backtickRun bytes
  fun_induction closingRun? bytes limit length pos with
  | case1 pos inside isTick run closes =>
    have here : TicksAt bytes pos length := closes.1 ▸ ticks pos
    exact .here ⟨⟨here, fresh isTick⟩, by omega⟩
  | case2 pos inside isTick run other positive ih =>
    refine (ih fun isTick => absurd isTick (ticks pos).ends).leap (by omega) fun q after before => ?_
    rintro ⟨here, within⟩
    -- no run of the length begins here, and none between here and the end of this run
    rcases Nat.eq_or_lt_of_le after with rfl | later
    · have same : run = length := (ticks pos).unique here.toTicksAt
      exact other ⟨same, by omega⟩
    · exact here.begins (by omega) ((ticks pos).ticks _ (by omega) (by omega))
  | case3 pos inside noTick ih =>
    exact (ih fun _ _ => by simpa using noTick).step fun here => noTick (here.1.first some)
  | case4 pos outside =>
    refine .none fun q after here => outside ?_
    have := here.1.inside some
    omega

/-! ## What closes a code span -/

/-- A run that closes a code span: no fenced block and no blank line begins between the opening run and its end. -/
structure ClosesCode (text : String) (behind length pos : Nat) : Prop where
  run : RunAt (Text.bytes text) pos length
  beforeFence : ∀ fence ∈ fencedZones text, behind ≤ fence.start → pos + length ≤ fence.start
  beforeBlank : ∀ line ∈ placedLines text, Text.isBlankText line.chars = true → behind ≤ line.span.start →
    pos + length ≤ line.span.start

/-- A place lies in front of the first of some places in ascending order if and only if it lies in front of all of them. -/
theorem le_find?_getD_iff {places : List Nat} (sorted : places.Pairwise (· ≤ ·)) (p : Nat → Bool) {n size : Nat}
    (bound : n ≤ size) : n ≤ (places.find? p).getD size ↔ ∀ place ∈ places, p place = true → n ≤ place := by
  induction places with
  | nil => simpa using bound
  | cons first rest ih =>
    obtain ⟨least, later⟩ := List.pairwise_cons.mp sorted
    rw [List.forall_mem_cons]
    cases holds : p first with
    | true =>
      rw [List.find?_cons_of_pos holds, Option.getD_some]
      refine ⟨fun before => ⟨fun _ => before, fun place member _ => ?_⟩, fun all => all.1 rfl⟩
      exact Nat.le_trans before (least place member)
    | false => simp [List.find?_cons_of_neg, holds, ih later]

theorem LinesFrom.pairwise {size : Nat} {lines : List PlacedLine} (lined : LinesFrom size pos lines) :
    lines.Pairwise fun a b => a.span.start ≤ b.span.start := by
  induction lined with
  | nil => exact .nil
  | @cons line rest forward more ih =>
    refine ih.cons fun other member => ?_
    have := (more.bounds member).1
    omega

/-- Where a code span has to end at the latest whose opening run ends at some place. -/
def codeLimit (text : String) (behind : Nat) : Nat :=
  min ((((fencedZones text).toArray.find? fun fence => behind ≤ fence.start).map Span.start).getD (Text.bytes text).size)
    (((blankLineStarts text).find? fun start => behind < start).getD (Text.bytes text).size)

/-- Up to the limit there begins neither a fenced block nor a blank line. -/
theorem le_codeLimit_iff (text : String) (behind : Nat) {n : Nat} (bound : n ≤ (Text.bytes text).size) :
    n ≤ codeLimit text behind ↔ (∀ fence ∈ fencedZones text, behind ≤ fence.start → n ≤ fence.start) ∧
      ∀ line ∈ placedLines text, Text.isBlankText line.chars = true → behind < line.span.start → n ≤ line.span.start := by
  have fences : ((fencedZones text).map Span.start).Pairwise (· ≤ ·) := by
    refine List.pairwise_map.mpr ((fencedZones_ascending text).apart.imp_of_mem fun {a b} member _ apart => ?_)
    have := (fencedZones_ascending text).forward a member
    omega
  have blanks : (blankLineStarts text).Pairwise (· ≤ ·) :=
    List.pairwise_map.mpr ((linesFrom_placedLines text).pairwise.filter _)
  have nextFence := le_find?_getD_iff fences (behind ≤ ·) bound
  have nextBlank := le_find?_getD_iff blanks (behind < ·) bound
  rw [List.find?_map] at nextFence
  rw [codeLimit, Nat.le_min, List.find?_toArray]
  refine and_congr (nextFence.trans (by simp)) (nextBlank.trans ?_)
  simp only [blankLineStarts, List.mem_map, List.mem_filter, decide_eq_true_eq]
  constructor
  · intro all line member blank later
    exact all _ ⟨line, ⟨member, blank⟩, rfl⟩ later
  · rintro all _ ⟨line, ⟨member, blank⟩, rfl⟩ later
    exact all line member blank later

theorem closesCode_iff {behind : Nat} (after : 0 < behind)
    (tick : (Text.bytes text)[behind - 1]? = some backtickByte) (positive : 0 < length) {q : Nat} :
    ClosesCode text behind length q ↔ RunAt (Text.bytes text) q length ∧ q + length ≤ codeLimit text behind := by
  constructor
  · rintro ⟨run, beforeFence, beforeBlank⟩
    exact ⟨run, (le_codeLimit_iff text behind (run.inside positive)).mpr ⟨beforeFence, fun line member blank later =>
      beforeBlank line member blank (Nat.le_of_lt later)⟩⟩
  · rintro ⟨run, within⟩
    obtain ⟨beforeFence, beforeBlank⟩ := (le_codeLimit_iff text behind (run.inside positive)).mp within
    refine ⟨run, beforeFence, fun line member blank later => beforeBlank line member blank ?_⟩
    -- No line begins directly behind a backtick.
    refine Nat.lt_of_le_of_ne later fun same => ?_
    rcases isLineStart_of_mem_placedLines member with zero | feed
    · omega
    · rw [← same, tick] at feed
      exact absurd (Option.some.inj feed) (by decide)

/-- The search up to the limit finds the first run that can close a code span. -/
theorem finds_closesCode (opens : TicksAt (Text.bytes text) pos length) (positive : 0 < length) :
    Finds (ClosesCode text (pos + length) length) (pos + length)
      (closingRun? (Text.bytes text) (codeLimit text (pos + length)) length (pos + length)) := by
  have same : ClosesCode text (pos + length) length =
      fun q => RunAt (Text.bytes text) q length ∧ q + length ≤ codeLimit text (pos + length) :=
    funext fun q => propext (closesCode_iff (by omega) (opens.last positive) positive)
  rw [same]
  exact finds_closingRun? positive fun tick => absurd tick opens.ends

/-! ## Steps -/

/-- A step from a place, and the code span that it passes. -/
inductive CodeStep (text : String) (pos : Nat) : Nat → List Span → Prop where
  /-- Out of a fenced block. -/
  | fenced {fence : Span} (member : fence ∈ fencedZones text) (starts : fence.start ≤ pos) (stops : pos < fence.stop) :
      CodeStep text pos fence.stop []
  /-- Behind the byte that a backslash takes along. -/
  | escape (outside : Outside (fencedZones text) pos) (slash : (Text.bytes text)[pos]? = some backslashByte) :
      CodeStep text pos (pos + 2) []
  /-- Behind a code span: backticks, and the first run of as many that can close it. -/
  | code {length close : Nat} (outside : Outside (fencedZones text) pos) (positive : 0 < length)
      (opens : TicksAt (Text.bytes text) pos length)
      (closes : First (ClosesCode text (pos + length) length) (pos + length) close) :
      CodeStep text pos (close + length) [⟨pos, close + length⟩]
  /-- Behind backticks that nothing closes. -/
  | literal {length : Nat} (outside : Outside (fencedZones text) pos) (positive : 0 < length)
      (opens : TicksAt (Text.bytes text) pos length)
      (unclosed : ∀ q, pos + length ≤ q → ¬ ClosesCode text (pos + length) length q) :
      CodeStep text pos (pos + length) []
  /-- Behind any other byte. -/
  | other (outside : Outside (fencedZones text) pos) (noSlash : (Text.bytes text)[pos]? ≠ some backslashByte)
      (noTick : (Text.bytes text)[pos]? ≠ some backtickByte) : CodeStep text pos (pos + 1) []

/-- The code spans from a place on. -/
inductive CodeFrom (text : String) : Nat → List Span → Prop where
  | done {pos : Nat} (past : (Text.bytes text).size ≤ pos) : CodeFrom text pos []
  | step {pos next : Nat} {found spans : List Span} (inside : pos < (Text.bytes text).size)
      (here : CodeStep text pos next found) (more : CodeFrom text next spans) : CodeFrom text pos (found ++ spans)

/-- Of spans that follow each other without overlap only one covers a place. -/
theorem Span.Ascending.eq_of_covers (ascending : Span.Ascending spans) {a b : Span} (first : a ∈ spans) (other : b ∈ spans)
    (covers : a.start ≤ pos ∧ pos < a.stop) (covers' : b.start ≤ pos ∧ pos < b.stop) : a = b := by
  by_contra differ
  have symmetric : Std.Symm Span.Apart := ⟨fun _ _ => Or.symm⟩
  have apart : spans.Pairwise Span.Apart := ascending.apart.imp Or.inl
  rcases apart.forall first other differ with before | behind <;> omega

/-- From a place there is only one step. -/
theorem CodeStep.unique {next' : Nat} {found' : List Span} (first : CodeStep text pos next found)
    (other : CodeStep text pos next' found') : next = next' ∧ found = found' := by
  -- At most one fenced block covers the place, and outside of them the byte that stands there decides.
  cases first with
  | fenced member starts stops =>
    cases other with
    | fenced member' starts' stops' =>
      rw [(fencedZones_ascending text).eq_of_covers member member' ⟨starts, stops⟩ ⟨starts', stops'⟩]
      exact ⟨rfl, rfl⟩
    | escape outside | code outside | literal outside | other outside => exact absurd ⟨starts, stops⟩ (outside _ member)
  | escape outside slash =>
    cases other with
    | fenced member starts stops => exact absurd ⟨starts, stops⟩ (outside _ member)
    | escape => exact ⟨rfl, rfl⟩
    | code _ positive opens | literal _ positive opens => exact absurd slash (opens.no_slash positive)
    | other _ noSlash => exact absurd slash noSlash
  | code outside positive opens closes =>
    cases other with
    | fenced member starts stops => exact absurd ⟨starts, stops⟩ (outside _ member)
    | escape _ slash => exact absurd slash (opens.no_slash positive)
    | code _ positive' opens' closes' =>
      obtain rfl := opens.unique opens'
      obtain rfl := closes.unique closes'
      exact ⟨rfl, rfl⟩
    | literal _ _ opens' unclosed =>
      obtain rfl := opens.unique opens'
      exact absurd closes.holds (unclosed _ closes.after)
    | other _ _ noTick => exact absurd (opens.first positive) noTick
  | literal outside positive opens unclosed =>
    cases other with
    | fenced member starts stops => exact absurd ⟨starts, stops⟩ (outside _ member)
    | escape _ slash => exact absurd slash (opens.no_slash positive)
    | code _ _ opens' closes' =>
      obtain rfl := opens.unique opens'
      exact absurd closes'.holds (unclosed _ closes'.after)
    | literal _ _ opens' =>
      obtain rfl := opens.unique opens'
      exact ⟨rfl, rfl⟩
    | other _ _ noTick => exact absurd (opens.first positive) noTick
  | other outside noSlash noTick =>
    cases other with
    | fenced member starts stops => exact absurd ⟨starts, stops⟩ (outside _ member)
    | escape _ slash => exact absurd slash noSlash
    | code _ positive opens | literal _ positive opens => exact absurd (opens.first positive) noTick
    | other => exact ⟨rfl, rfl⟩

theorem CodeFrom.unique {others : List Span} (left : CodeFrom text pos spans) (right : CodeFrom text pos others) :
    spans = others := by
  induction left generalizing others with
  | done past =>
    cases right with
    | done => rfl
    | step inside => omega
  | step inside here more ih =>
    cases right with
    | done past => omega
    | step _ here' more' =>
      obtain ⟨rfl, rfl⟩ := here.unique here'
      rw [ih more']

/-- The scanner goes step by step. -/
theorem codeFrom_codeSpansFrom (text : String) (pos : Nat) :
    CodeFrom text pos (codeSpansFrom (Text.bytes text) (fencedZones text).toArray (blankLineStarts text) pos) := by
  have ascending := fencedZones_ascending text
  fun_induction codeSpansFrom (Text.bytes text) (fencedZones text).toArray (blankLineStarts text) pos with
  | case1 pos inside fence covered forward ih =>
    obtain ⟨member, starts, stops⟩ := covers_of_spanAt? ascending covered
    exact .step inside (.fenced member starts stops) ih
  | case2 pos inside fence covered stuck => exact absurd (covers_of_spanAt? ascending covered).2.2 stuck
  | case3 pos inside uncovered isSlash ih =>
    exact .step inside (.escape ((spanAt?_eq_none_iff ascending).mp uncovered) isSlash) ih
  | case4 pos inside uncovered noSlash isTick run positive from' nextFence nextBlank close closes ih =>
    have opens : TicksAt (Text.bytes text) pos run := ticksAt_backtickRun _ pos
    have first := (finds_closesCode opens positive).first close closes
    have after := first.after
    rw [if_pos (by omega)]
    exact .step inside (.code ((spanAt?_eq_none_iff ascending).mp uncovered) positive opens first) (ih (by omega))
  | case5 pos inside uncovered noSlash isTick run positive from' nextFence nextBlank unclosed ih =>
    have opens : TicksAt (Text.bytes text) pos run := ticksAt_backtickRun _ pos
    exact .step inside (.literal ((spanAt?_eq_none_iff ascending).mp uncovered) positive opens
      ((finds_closesCode opens positive).nowhere unclosed)) ih
  | case6 pos inside uncovered noSlash noTick ih =>
    exact .step inside (.other ((spanAt?_eq_none_iff ascending).mp uncovered) noSlash noTick) ih
  | case7 pos past => exact .done (by omega)

theorem codeFrom_iff (text : String) (pos : Nat) : CodeFrom text pos spans ↔
    spans = codeSpansFrom (Text.bytes text) (fencedZones text).toArray (blankLineStarts text) pos :=
  ⟨fun found => found.unique (codeFrom_codeSpansFrom text pos), fun same => same ▸ codeFrom_codeSpansFrom text pos⟩

/-! ## What follows for code spans and zones -/

/-- A code span begins and ends with a run of backticks of one length. -/
theorem CodeFrom.runs (read : CodeFrom text pos spans) (member : span ∈ spans) :
    ∃ length close, 0 < length ∧ TicksAt (Text.bytes text) span.start length ∧ span.start + length ≤ close ∧
      ClosesCode text (span.start + length) length close ∧ span.stop = close + length := by
  induction read with
  | done => cases member
  | step inside here more ih =>
    rcases List.mem_append.mp member with now | later
    · cases here with
      | code outside positive opens closes =>
        obtain rfl := List.mem_singleton.mp now
        exact ⟨_, _, positive, opens, closes.after, closes.holds, rfl⟩
      | _ => cases now
    · exact ih later

theorem CodeFrom.delimited (read : CodeFrom text pos spans) (member : span ∈ spans) : span.Delimited (Text.bytes text) := by
  obtain ⟨length, close, positive, opens, after, closes, stop⟩ := read.runs member
  refine ⟨by omega, ⟨_, opens.first positive, by decide⟩, ⟨_, ?_, show backtickByte.toNat < 128 by decide⟩⟩
  rw [stop]
  exact closes.run.last positive

/-- A line stands in the text between the places that it is given. -/
theorem placed_of_mem_go (front : List Char) {cs : List Char} {lines : List (List Char)} (whole : cs = front ++ lines.flatten) :
    ∀ line ∈ placedLines.go (byteLength front) lines, ∃ before back, cs = before ++ (line.chars ++ back) ∧
      byteLength before = line.span.start ∧ byteLength (before ++ line.chars) = line.span.stop := by
  induction lines generalizing front with
  | nil =>
    intro line member
    cases member
  | cons first rest ih =>
    rw [placedLines.go]
    refine List.forall_mem_cons.mpr ⟨⟨front, rest.flatten, whole, rfl, Text.byteLength_append _ _⟩, ?_⟩
    rw [← Text.byteLength_append]
    exact ih _ (by rw [whole, List.flatten_cons, List.append_assoc])

theorem placed_of_mem {line : PlacedLine} (member : line ∈ placedLines text) :
    ∃ before back, text.toList = before ++ (line.chars ++ back) ∧
      byteLength before = line.span.start ∧ byteLength (before ++ line.chars) = line.span.stop :=
  placed_of_mem_go [] (Text.flatten_linesWithEnds _).symm line member

/-- A line with a backtick is not blank. -/
theorem not_blank_of_tick {line : PlacedLine} (member : line ∈ placedLines text)
    (tick : (Text.bytes text)[pos]? = some backtickByte) (starts : line.span.start ≤ pos) (stops : pos < line.span.stop) :
    Text.isBlankText line.chars = false := by
  obtain ⟨before, back, whole, start, stop⟩ := placed_of_mem member
  rw [Text.byteLength_append] at stop
  rw [← Array.getElem?_toList, Text.toList_bytes, whole, List.flatMap_append, List.flatMap_append,
    List.getElem?_append_right (by rw [Text.length_encoded]; omega), Text.length_encoded,
    List.getElem?_append_left (by rw [Text.length_encoded]; omega)] at tick
  obtain ⟨front, rest, chars, -, -⟩ := Text.split_at_ascii tick (by decide)
  rw [← Bool.not_eq_true, Text.isBlankText, List.all_eq_true]
  intro blank
  exact absurd (blank _ (by rw [chars]; exact List.mem_append_right _ List.mem_cons_self)) (by decide)

/-- A code span touches no blank line. -/
theorem CodeFrom.apart_of_blank (read : CodeFrom text pos spans) (member : span ∈ spans) {line : PlacedLine}
    (listed : line ∈ placedLines text) (blank : Text.isBlankText line.chars = true) : span.Apart line.span := by
  obtain ⟨length, close, positive, opens, after, closes, stop⟩ := read.runs member
  have noTick : ∀ q, (Text.bytes text)[q]? = some backtickByte → ¬ (line.span.start ≤ q ∧ q < line.span.stop) := by
    rintro q tick ⟨starts, stops⟩
    rw [not_blank_of_tick listed tick starts stops] at blank
    cases blank
  unfold Span.Apart
  by_contra touches
  have limit := closes.beforeBlank line listed blank
  have forward := ((linesFrom_placedLines text).bounds listed).2.1
  -- The line begins in front of the code span or in its opening run, so it holds a backtick of that run.
  exact noTick (max span.start line.span.start) (opens.ticks _ (by omega) (by omega)) (by omega)

theorem isBoundary_of_mem_codeZones {zone : Span} (member : zone ∈ codeZones text) :
    IsBoundary text.toList zone.start ∧ IsBoundary text.toList zone.stop := by
  rcases mem_codeZones.mp member with code | fence
  · exact ((codeFrom_codeSpansFrom text 0).delimited code).boundaries
  · obtain ⟨first, inText, last, inText', rfl⟩ := first_last_of_mem_fencedZones fence
    obtain ⟨before, back, whole, start, -⟩ := placed_of_mem inText
    obtain ⟨before', back', whole', -, stop⟩ := placed_of_mem inText'
    exact ⟨⟨before, _, whole, start⟩, ⟨_, back', by rw [whole', List.append_assoc], stop⟩⟩

/-- The code spans of a text are those that its runs of backticks form. All zones of the text follow each other without
    overlap, lie in the text and cut no character, and a code span touches neither a fenced block nor a blank line. -/
theorem codeSpans_pair_runs (text : String) :
    (∀ spans, CodeFrom text 0 spans ↔ spans = codeSpans text (fencedZones text)) ∧
      Span.Ascending (codeZones text) ∧
      (∀ zone ∈ codeZones text, zone.stop ≤ text.utf8ByteSize ∧ IsBoundary text.toList zone.start ∧
        IsBoundary text.toList zone.stop) ∧
      ∀ span ∈ codeSpans text (fencedZones text), (∀ fence ∈ fencedZones text, span.Apart fence) ∧
        ∀ line ∈ placedLines text, Text.isBlankText line.chars = true → span.Apart line.span := by
  refine ⟨fun spans => codeFrom_iff text 0, codeZones_ascending text, fun zone member => ?_, fun span member => ?_⟩
  · obtain ⟨starts, stops⟩ := isBoundary_of_mem_codeZones member
    have within := stops.le
    rw [← Text.size_bytes] at within
    exact ⟨within, starts, stops⟩
  · exact ⟨(apart_of_mem_codeSpans member).2, fun line listed blank =>
      (codeFrom_codeSpansFrom text 0).apart_of_blank member listed blank⟩

/-- A run of two is closed by the next run of two, and an escaped backtick opens nothing. -/
theorem codeSpan_around_tick :
    let text := "``a`b`` \\`c`"
    codeSpans text (fencedZones text) = [⟨0, 7⟩] ∧ CodeFrom text 0 [⟨0, 7⟩] := by
  intro text
  have spans : codeSpans text (fencedZones text) = [⟨0, 7⟩] := by decide +kernel
  exact ⟨spans, ((codeSpans_pair_runs text).1 _).mpr spans.symm⟩

end Galley.Source
