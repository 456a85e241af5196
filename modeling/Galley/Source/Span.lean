/-!
# Spans

A span is a stretch of a text between two byte offsets. Lists of spans are kept in ascending order, so
that the span at a position is found by bisection.

* `Span` — where a stretch of text begins and ends;
* `partitionPoint` — how many entries at the front of an array satisfy a test, by bisection;
* `spanAt?` — the span of an ascending array that covers a position;
* `Span.sorted` — some spans in ascending order.
-/

namespace Galley.Source

/-- The bytes of a text from `start` up to and without `stop`. -/
structure Span where
  /-- The offset of the first byte. -/
  start : Nat
  /-- The offset just after the last byte. -/
  stop : Nat
  deriving Repr, DecidableEq, Inhabited

namespace Span

/-- Whether the span covers a position. -/
def covers (span : Span) (pos : Nat) : Bool := span.start ≤ pos && pos < span.stop

/-- The order of spans: by where they start, then by where they stop. -/
def le (a b : Span) : Bool := a.start < b.start || (a.start == b.start && a.stop ≤ b.stop)

/-- The spans in ascending order. -/
def sorted (spans : List Span) : List Span := spans.mergeSort le

end Span

/-- How many entries at the front of an array satisfy a test that, once it fails, fails for all later
entries. The array is bisected until one entry is left. -/
def partitionPoint {α : Type} (p : α → Bool) (entries : Array α) : Nat :=
  match entries[go entries.size 0 entries.size]? with
  | some entry =>
    go entries.size 0 entries.size + if p entry then 1 else 0
  | none => 0
where
  /-- The entry that decides among the `size` entries from `base` on. -/
  go : Nat → Nat → Nat → Nat
    | 0, base, _ => base
    | fuel + 1, base, size =>
      if 1 < size then
        let half := size / 2
        let holds := match entries[base + half]? with
          | some entry => p entry
          | none => false
        go fuel (if holds then base + half else base) (size - half)
      else
        base

/-- The span that covers a position, in an ascending array of disjoint spans. -/
def spanAt? (spans : Array Span) (pos : Nat) : Option Span :=
  (spans[partitionPoint (fun span => span.stop ≤ pos) spans]?).filter fun span => span.start ≤ pos

end Galley.Source
