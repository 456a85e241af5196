import Galley.Text.Escape

/-!
# Diagrams that failed

* `durationText` — a duration in its largest fitting unit;
* `PictureError` — why a diagram has no picture, and `PictureError.message`, how it is said;
* `errorBlock` — what stands in its place.
-/

namespace Galley.Diagram

/-- A decimal fraction below one, without its last zeros. `digits` is how many places `part` has. -/
def fractionText (part digits : Nat) : List Char :=
  let written := Nat.toDigits 10 part
  let padded := List.replicate (digits - written.length) '0' ++ written
  let kept := (padded.reverse.dropWhile (· == '0')).reverse
  if kept.isEmpty then [] else '.' :: kept

/-- How many nanoseconds a microsecond has. -/
def nanosPerMicro : Nat := 1000

/-- How many nanoseconds a millisecond has. -/
def nanosPerMilli : Nat := 1000000

/-- How many nanoseconds a second has. -/
def nanosPerSecond : Nat := 1000000000

/-- A number of nanoseconds in the largest of seconds, milli-, micro- and nanoseconds of which there is
at least one. -/
def durationText (nanos : Nat) : String :=
  let inUnit (size digits : Nat) (unit : String) : String :=
    toString (nanos / size) ++ String.ofList (fractionText (nanos % size) digits) ++ unit
  if nanosPerSecond ≤ nanos then inUnit nanosPerSecond 9 "s"
  else if nanosPerMilli ≤ nanos then inUnit nanosPerMilli 6 "ms"
  else if nanosPerMicro ≤ nanos then inUnit nanosPerMicro 3 "µs"
  else toString nanos ++ "ns"

/-- Why a diagram has no picture. -/
inductive PictureError where
  /-- The renderer could not be started. -/
  | launch (program reason : String)
  /-- The renderer could not be talked to. -/
  | io (reason : String)
  /-- The renderer refused the diagram. -/
  | rejected (reason : String)
  /-- The renderer's answer is no picture. -/
  | invalidOutput (reason : String)
  /-- The renderer took longer than it may. -/
  | timedOut (nanos : Nat)
  deriving Repr, DecidableEq

/-- An error in words. -/
def PictureError.message : PictureError → String
  | launch program reason => "failed to launch " ++ program ++ ": " ++ reason
  | io reason => "I/O error talking to diagram renderer: " ++ reason
  | rejected reason => reason
  | invalidOutput reason => "renderer produced invalid output: " ++ reason
  | timedOut nanos => "diagram rendering timed out after " ++ durationText nanos

/-- What stands in the place of a diagram that failed. -/
def errorBlock (message : String) : String :=
  "<pre class=\"mermaid-error\">Mermaid error: " ++ Text.escapeText message ++ "</pre>"

end Galley.Diagram
