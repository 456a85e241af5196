import Galley.Source.CodeZones

/-!
# Protected regions

The stretches of a document that are no Markdown: formulas and markers for the table of contents. They
are found in two passes over the bytes of the text, both outside the code zones.

* `blockRegions` — the first pass: display formulas between pairs of double dollar signs;
* `inlineRegions` — the second pass, between those: formulas in the line between dollar signs, and
  markers;
* `protectedRegions` — both, in ascending order.
-/

namespace Galley.Source

/-- What a protected region is. -/
inductive RegionKind where
  /-- A formula on display, between double dollar signs. -/
  | mathBlock
  /-- A formula in the line, between dollar signs. -/
  | mathInline
  /-- A place for the table of contents. -/
  | contentsMarker
  deriving Repr, DecidableEq

/-- A protected region: its place and what it is. -/
structure Region where
  /-- Where the region is, delimiters included. -/
  span : Span
  /-- What it is. -/
  kind : RegionKind
  deriving Repr, DecidableEq

/-- The dollar sign, as a byte. -/
def dollarByte : UInt8 := 0x24

/-- The line feed, as a byte. -/
def newlineByte : UInt8 := 0x0a

/-- The opening bracket, as a byte. -/
def bracketByte : UInt8 := 0x5b

/-- Whether the byte before `pos` is a backslash. -/
def isEscapedAt (bytes : Array UInt8) (pos : Nat) : Bool :=
  (Caret.mk bytes pos).previous? == some backslashByte

/-- Whether a dollar sign stands at `pos` with no backslash before it. -/
def isDollarAt (bytes : Array UInt8) (pos : Nat) : Bool :=
  bytes[pos]? == some dollarByte && !isEscapedAt bytes pos

/-- Whether two dollar signs stand at `pos` with no backslash before them. -/
def isBlockDelimiterAt (bytes : Array UInt8) (pos : Nat) : Bool :=
  isDollarAt bytes pos && bytes[pos + 1]? == some dollarByte

/-- The first block delimiter outside the zones at `pos` or later. -/
def nextBlockDelimiter? (bytes : Array UInt8) (zones : Array Span) (pos : Nat) : Option Nat :=
  if _inside : pos < bytes.size then
    match spanAt? zones pos with
    | some zone => if pos < zone.stop then nextBlockDelimiter? bytes zones zone.stop else none
    | none =>
      if isBlockDelimiterAt bytes pos then some pos else nextBlockDelimiter? bytes zones (pos + 1)
  else
    none
termination_by bytes.size - pos

/-- A block delimiter that is found lies at or after the place where the search began. -/
theorem le_of_nextBlockDelimiter? {bytes : Array UInt8} {zones : Array Span} {pos found : Nat}
    (h : nextBlockDelimiter? bytes zones pos = some found) : pos ≤ found ∧ found < bytes.size := by
  fun_induction nextBlockDelimiter? bytes zones pos with
  | case1 pos inside zone covered further ih =>
    have := ih h
    omega
  | case2 => simp at h
  | case3 pos inside covered isDelimiter => simp at h; omega
  | case4 pos inside covered isDelimiter ih =>
    have := ih h
    omega
  | case5 => simp at h

/-- The display formulas from byte `pos` on. The formula between two delimiters takes at least one
byte. The search ends at a delimiter that no other follows. -/
def blockRegionsFrom (bytes : Array UInt8) (zones : Array Span) (pos : Nat) : List Span :=
  match h : nextBlockDelimiter? bytes zones pos with
  | none => []
  | some start =>
    match h' : nextBlockDelimiter? bytes zones (start + 3) with
    | none => []
    | some close =>
      have := le_of_nextBlockDelimiter? h
      have := le_of_nextBlockDelimiter? h'
      ⟨start, close + 2⟩ :: blockRegionsFrom bytes zones (close + 2)
termination_by bytes.size - pos

/-- The display formulas of a text outside some zones. -/
def blockRegions (text : String) (zones : List Span) : List Span :=
  blockRegionsFrom (Text.bytes text) zones.toArray 0

/-- The span at a position among the zones, or else among the display formulas. -/
def occupiedAt? (zones blocks : Array Span) (pos : Nat) : Option Span :=
  spanAt? zones pos <|> spanAt? blocks pos

/-- Where the formula in the line stops whose body starts at `start`: after the next dollar sign, if
that is not the first byte and neither a line end nor an occupied place comes before it. -/
def inlineStop? (bytes : Array UInt8) (zones blocks : Array Span) (start pos : Nat) : Option Nat :=
  match h : bytes[pos]? with
  | none => none
  | some b =>
    if b = newlineByte ∨ (occupiedAt? zones blocks pos).isSome then none
    else if isDollarAt bytes pos then
      if start < pos then some (pos + 1) else none
    else
      have := (Array.getElem?_eq_some_iff.mp h).1
      inlineStop? bytes zones blocks start (pos + 1)
termination_by bytes.size - pos

/-- The markers for the table of contents, the longer one first. -/
def contentsMarkers : List (List UInt8) := ["[[toc]]", "[toc]"].map fun marker => (Text.bytes marker).toList

/-- The length of the marker at a position. -/
def contentsMarkerLength? (bytes : Array UInt8) (pos : Nat) : Option Nat :=
  (contentsMarkers.find? fun marker => (Caret.mk bytes pos).startsWithIgnoringCase marker).map
    List.length

/-- The markers and the formulas in the line from byte `pos` on. -/
def inlineRegionsFrom (bytes : Array UInt8) (zones blocks : Array Span) (pos : Nat) : List Region :=
  if _inside : pos < bytes.size then
    match occupiedAt? zones blocks pos with
    | some span => if pos < span.stop then inlineRegionsFrom bytes zones blocks span.stop else []
    | none =>
      match contentsMarkerLength? bytes pos with
      | some length =>
        ⟨⟨pos, pos + length⟩, .contentsMarker⟩ ::
          inlineRegionsFrom bytes zones blocks (pos + max 1 length)
      | none =>
        if isDollarAt bytes pos then
          match inlineStop? bytes zones blocks (pos + 1) (pos + 1) with
          | some stop =>
            ⟨⟨pos, stop⟩, .mathInline⟩ ::
              (if pos < stop then inlineRegionsFrom bytes zones blocks stop else [])
          | none => inlineRegionsFrom bytes zones blocks (pos + 1)
        else
          inlineRegionsFrom bytes zones blocks (pos + 1)
  else
    []
termination_by bytes.size - pos
decreasing_by all_goals omega

/-- The markers and the formulas in the line, outside the zones and the display formulas. -/
def inlineRegions (text : String) (zones blocks : List Span) : List Region :=
  inlineRegionsFrom (Text.bytes text) zones.toArray blocks.toArray 0

/-- Whether a region starts no later than another. -/
def Region.le (a b : Region) : Bool := a.span.start ≤ b.span.start

/-- The protected regions of a text, in ascending order. -/
def protectedRegions (text : String) : List Region :=
  let zones := codeZones text
  let blocks := blockRegions text zones
  (blocks.map (Region.mk · .mathBlock) ++ inlineRegions text zones blocks).mergeSort Region.le

end Galley.Source
