import Galley.Text.Table
import Galley.Text.CaseTable

/-!
# Letter case

Small letters and case folding in the Unicode sense.

* `lowerChar` — the small form of one character, which may take two;
* `lower` — the small form of a text, where a capital sigma at the end of a word gets its final form;
* `fold` — the form in which texts are compared when case does not matter.
-/

namespace Galley.Text

/-- Characters `lo` to `hi`, every `step`-th of them, whose small letter stands `distance` away. -/
structure CaseRun where
  /-- The first character of the run. -/
  lo : Nat
  /-- The last character of the run. -/
  hi : Nat
  /-- From one character of the run to the next. -/
  step : Nat
  /-- From a character to its small letter. -/
  distance : Int

/-- A run written as `a-b/s+d` or `a-b/s~d`. -/
def readCaseRun (cs : List Char) : CaseRun :=
  let range := cs.takeWhile fun c => c != '+' && c != '~'
  let shift := cs.drop range.length
  let ends := range.takeWhile (· != '/')
  let step := if ends.length < range.length then hexNumber (range.drop (ends.length + 1)) else 1
  let (lo, hi) := readRange ends
  let size : Int := hexNumber (shift.drop 1)
  { lo, hi, step, distance := if shift.head? == some '~' then -size else size }

/-- The runs of `lowercaseRows`. -/
def caseRuns : Array CaseRun := ((rowEntries lowercaseRows).map readCaseRun).toArray

/-- The small letter of a character, where that is a single character. -/
def lowerSingle (c : Char) : Char :=
  if c.toNat < 128 then c.toLower
  else
    match lastAtMost? CaseRun.lo caseRuns c.toNat with
    | some run =>
      if c.toNat ≤ run.hi && (c.toNat - run.lo) % run.step == 0 then
        Char.ofNat (Int.toNat (c.toNat + run.distance))
      else c
    | none => c

/-- The small form of a character. Only the dotted capital I takes two characters. -/
def lowerChar (c : Char) : List Char :=
  if c.toNat == 0x130 then ['i', '\u0307'] else [lowerSingle c]

/-- Characters that have case, beyond ASCII. -/
def casedTable : CharClass := .ofRows casedRows

/-- Characters that do not matter for the case around them, beyond ASCII. -/
def caseIgnorableTable : CharClass := .ofRows caseIgnorableRows

/-- Whether a character has case. -/
def isCased (c : Char) : Bool :=
  if c.toNat < 128 then c.isAlpha else casedTable.contains c

/-- Whether a character does not matter for the case around it. -/
def isCaseIgnorable (c : Char) : Bool :=
  if c.toNat < 128 then
    c == '\x27' || c == '.' || c == ':' || c == '^' || c == '\x60'
  else caseIgnorableTable.contains c

/-- Whether the next character that matters for case has case. -/
def meetsCased (cs : List Char) : Bool :=
  match cs.dropWhile isCaseIgnorable with
  | c :: _ => isCased c
  | [] => false

/-- The small form of a text. A capital sigma with a cased character before it and none after it is
the last letter of a word. -/
def lower (cs : List Char) : List Char :=
  go [] cs
where
  /-- `before` is what has been read, last character first. -/
  go : List Char → List Char → List Char
    | _, [] => []
    | before, c :: rest =>
      if c.toNat == 0x3a3 then
        (if meetsCased before && !meetsCased rest then '\u03c2' else '\u03c3')
          :: go (c :: before) rest
      else
        lowerChar c ++ go (c :: before) rest

/-- Characters whose folding is not their small letter. -/
def foldTable : Array (Nat × List Char) :=
  ((rowEntries foldRows).map fun cs =>
    match cs.splitOn '=' with
    | [c, folded] => (hexNumber c, (folded.splitOn ',').map fun n => Char.ofNat (hexNumber n))
    | _ => (0, [])).toArray

/-- The folding of a character. -/
def foldChar (c : Char) : List Char :=
  if c.toNat < 128 then [c.toLower]
  else
    match lastAtMost? Prod.fst foldTable c.toNat with
    | some (n, folded) => if n == c.toNat then folded else lowerChar c
    | none => lowerChar c

/-- A text with its case folded. -/
def fold (cs : List Char) : List Char := cs.flatMap foldChar

/-- A text with its ASCII capitals made small. -/
def lowerAscii (cs : List Char) : List Char := cs.map Char.toLower

end Galley.Text
