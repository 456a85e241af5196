/-!
# Texts as bytes

Positions in a text are byte offsets into its UTF-8 form. Here are the measure of a text in bytes,
its bytes, and the cut at a byte offset:

* `byteLength` — how many bytes a text takes;
* `bytes` — the bytes themselves;
* `cut` — the text before and after a byte offset;
* `slice` — the text between two byte offsets.
-/

namespace Galley.Text

/-- How many bytes a text takes in UTF-8. -/
def byteLength : List Char → Nat
  | [] => 0
  | c :: rest => c.utf8Size + byteLength rest

/-- The bytes of a text in UTF-8. -/
def bytes (text : String) : Array UInt8 := text.toUTF8.data

/-- The text before and after byte `n`. An offset inside a character cuts after that character. -/
def cut : Nat → List Char → List Char × List Char
  | _, [] => ([], [])
  | n, c :: rest =>
    if n = 0 then
      ([], c :: rest)
    else
      let (before, after) := cut (n - c.utf8Size) rest
      (c :: before, after)

/-- The text from byte `start` up to byte `stop`. -/
def slice (start stop : Nat) (cs : List Char) : List Char :=
  (cut (stop - start) (cut start cs).2).1

/-- A cut loses nothing. -/
theorem cut_append (n : Nat) (cs : List Char) : (cut n cs).1 ++ (cut n cs).2 = cs := by
  induction cs generalizing n with
  | nil => rfl
  | cons c rest ih =>
    unfold cut
    split
    · rfl
    · simp [ih]

/-- Whether a byte is an ASCII letter. -/
def isLetterByte (b : UInt8) : Bool :=
  (65 ≤ b && b ≤ 90) || (97 ≤ b && b ≤ 122)

/-- An ASCII capital as its small letter; every other byte stays. -/
def lowerByte (b : UInt8) : UInt8 := if 65 ≤ b && b ≤ 90 then b + 32 else b

end Galley.Text
