import Galley.Source.Caret
import Galley.Source.Fence
import Galley.Source.Span

/-!
# Code zones

The stretches of a document that are code. Nothing in them is a formula or a marker.

* `fencedZones` — from an opening fence line through its closing one, or to the end of the text;
* `codeSpans` — runs of backticks outside those, each with the next run of the same length in its
  paragraph;
* `codeZones` — both, in ascending order.
-/

namespace Galley.Source

/-- A line with the byte offsets at which it starts and stops. -/
structure PlacedLine where
  /-- The line with the line feed that ends it. -/
  chars : List Char
  /-- Where the line is. -/
  span : Span
  deriving Repr

/-- The lines of a text, each with its place. -/
def placedLines (text : String) : List PlacedLine :=
  go 0 (Text.linesWithEnds text.toList)
where
  /-- `offset` is where the first of these lines starts. -/
  go (offset : Nat) : List (List Char) → List PlacedLine
    | [] => []
    | line :: rest =>
      let stop := offset + Text.byteLength line
      ⟨line, ⟨offset, stop⟩⟩ :: go stop rest

/-- The fenced blocks among some lines. `opened` is the fence of the block being read, with the offset
at which it starts; `size` is the length of the whole text. -/
def fencedZonesFrom (size : Nat) : Option (Fence × Nat) → List PlacedLine → List Span
  | some (_, start), [] => [⟨start, size⟩]
  | none, [] => []
  | some (fence, start), line :: rest =>
    if fence.closedBy line.chars then
      ⟨start, line.span.stop⟩ :: fencedZonesFrom size none rest
    else
      fencedZonesFrom size (some (fence, start)) rest
  | none, line :: rest =>
    match Fence.ofLine? line.chars with
    | some fence => fencedZonesFrom size (some (fence, line.span.start)) rest
    | none => fencedZonesFrom size none rest

/-- The fenced blocks of a text, fence lines included. A block without a closing fence runs to the end
of the text. -/
def fencedZones (text : String) : List Span :=
  fencedZonesFrom text.utf8ByteSize none (placedLines text)

/-- Where the blank lines of a text start. -/
def blankLineStarts (text : String) : List Nat :=
  ((placedLines text).filter fun line => Text.isBlankText line.chars).map fun line => line.span.start

/-- The backtick, as a byte. -/
def backtickByte : UInt8 := 0x60

/-- The backslash, as a byte. -/
def backslashByte : UInt8 := 0x5c

/-- How many backticks stand from byte `pos` on. -/
def backtickRun (bytes : Array UInt8) (pos : Nat) : Nat :=
  if h : pos < bytes.size then
    if bytes[pos] = backtickByte then backtickRun bytes (pos + 1) + 1 else 0
  else
    0
termination_by bytes.size - pos

/-- A run at a backtick is not empty. -/
theorem backtickRun_pos {bytes : Array UInt8} {pos : Nat} (h : bytes[pos]? = some backtickByte) :
    0 < backtickRun bytes pos := by
  obtain ⟨inside, isTick⟩ := Array.getElem?_eq_some_iff.mp h
  unfold backtickRun
  simp [inside, isTick]

/-- Where the first run of exactly `length` backticks starts that lies between `pos` and `limit`. -/
def closingRun? (bytes : Array UInt8) (limit length pos : Nat) : Option Nat :=
  if _inside : pos < limit ∧ pos < bytes.size then
    if isTick : bytes[pos]? = some backtickByte then
      let run := backtickRun bytes pos
      if run = length ∧ pos + run ≤ limit then
        some pos
      else
        have := backtickRun_pos isTick
        closingRun? bytes limit length (pos + run)
    else
      closingRun? bytes limit length (pos + 1)
  else
    none
termination_by bytes.size - pos
decreasing_by all_goals omega

/-- The code spans from byte `pos` on. `fences` are the fenced blocks, `blanks` the starts of the blank
lines. A backslash takes the next byte along. -/
def codeSpansFrom (bytes : Array UInt8) (fences : Array Span) (blanks : List Nat) (pos : Nat) :
    List Span :=
  if _inside : pos < bytes.size then
    match spanAt? fences pos with
    | some fence =>
      if pos < fence.stop then codeSpansFrom bytes fences blanks fence.stop else []
    | none =>
      if bytes[pos]? = some backslashByte then
        codeSpansFrom bytes fences blanks (pos + 2)
      else if isTick : bytes[pos]? = some backtickByte then
        let run := backtickRun bytes pos
        have := backtickRun_pos isTick
        let from' := pos + run
        let nextFence := ((fences.find? fun fence => from' ≤ fence.start).map Span.start).getD bytes.size
        let nextBlank := (blanks.find? fun start => from' < start).getD bytes.size
        match closingRun? bytes (min nextFence nextBlank) run from' with
        | some close =>
          ⟨pos, close + run⟩ ::
            (if pos < close + run then codeSpansFrom bytes fences blanks (close + run) else [])
        | none => codeSpansFrom bytes fences blanks from'
      else
        codeSpansFrom bytes fences blanks (pos + 1)
  else
    []
termination_by bytes.size - pos
decreasing_by all_goals omega

/-- The code spans of a text outside some fenced blocks. A run of backticks opens a span that the next
run of the same length closes, if no fenced block and no blank line stands between; a run that is not
closed is text. -/
def codeSpans (text : String) (fences : List Span) : List Span :=
  codeSpansFrom (Text.bytes text) fences.toArray (blankLineStarts text) 0

/-- The fenced blocks and the code spans of a text, in ascending order. -/
def codeZones (text : String) : List Span :=
  let fences := fencedZones text
  Span.sorted (codeSpans text fences ++ fences)

end Galley.Source
