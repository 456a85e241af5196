/-!
# Tables of code points

Properties of characters are written as rows of hexadecimal code points. This module reads the rows:

* `hexValue?`, `hexNumber`, `hexDigits` — hexadecimal digits and numbers;
* `CharClass` — a set of characters as ascending ranges, and its membership test by bisection;
* `CharClass.ofRows` — the set written in some rows.
-/

namespace Galley.Text

/-- The value of a hexadecimal digit. -/
def hexValue? (c : Char) : Option Nat :=
  if '0' ≤ c && c ≤ '9' then some (c.toNat - 48)
  else if 'a' ≤ c && c ≤ 'f' then some (c.toNat - 87)
  else if 'A' ≤ c && c ≤ 'F' then some (c.toNat - 55)
  else none

/-- The number that some hexadecimal digits write. Other characters count as zero. -/
def hexNumber (cs : List Char) : Nat :=
  cs.foldl (fun n c => 16 * n + (hexValue? c).getD 0) 0

/-- The last `width` hexadecimal digits of a number. -/
def hexDigits (n : Nat) : (width : Nat) → List Char
  | 0 => []
  | width + 1 => hexDigits (n / 16) width ++ [Nat.digitChar (n % 16)]

/-- The entries of some rows: what stands between spaces. -/
def rowEntries (rows : List String) : List (List Char) :=
  rows.flatMap fun row => row.toList.splitOn ' '

/-- A range written as `a-b`, or as `a` alone. -/
def readRange (cs : List Char) : Nat × Nat :=
  match cs.splitOn '-' with
  | [lo, hi] => (hexNumber lo, hexNumber hi)
  | _ => (hexNumber cs, hexNumber cs)

/-- The index of the last entry whose key is at most `n`, by bisection of an ascending array. -/
def lastAtMost? {α : Type} (key : α → Nat) (table : Array α) (n : Nat) : Option α :=
  go table.size 0 table.size
where
  /-- Entries before `lo` have small enough keys; entries from `hi` on have not. -/
  go : Nat → Nat → Nat → Option α
    | 0, lo, _ => if lo = 0 then none else table[lo - 1]?
    | fuel + 1, lo, hi =>
      if lo < hi then
        let mid := (lo + hi) / 2
        match table[mid]? with
        | some entry => if key entry ≤ n then go fuel (mid + 1) hi else go fuel lo mid
        | none => none
      else
        if lo = 0 then none else table[lo - 1]?

/-- A set of characters, as ascending ranges of code points with both ends included. -/
structure CharClass where
  /-- The ranges, from the lowest to the highest. -/
  ranges : Array (Nat × Nat)

namespace CharClass

/-- The set that some rows of ranges write. -/
def ofRows (rows : List String) : CharClass :=
  ⟨((rowEntries rows).map readRange).toArray⟩

/-- Whether a character belongs to the set. -/
def contains (table : CharClass) (c : Char) : Bool :=
  match lastAtMost? Prod.fst table.ranges c.toNat with
  | some (_, hi) => c.toNat ≤ hi
  | none => false

end CharClass

end Galley.Text
