import Galley.Text.Bytes
import Mathlib

/-!
# Character boundaries

Scanners work on bytes and cuts on characters. A byte offset is a boundary when no character lies across
it; this is where the two views meet.

* `IsBoundary` — the byte offsets between characters;
* `split_at_ascii` — an ASCII byte is a character of its own;
* `cut_of_byteLength` — at a boundary a cut takes exactly the bytes that it was asked for.
-/

namespace Galley.Text

/-- A byte offset at which no character of the text is split. -/
def IsBoundary (cs : List Char) (n : Nat) : Prop :=
  ∃ front back, cs = front ++ back ∧ byteLength front = n

@[simp] theorem byteLength_append (as bs : List Char) :
    byteLength (as ++ bs) = byteLength as + byteLength bs := by
  induction as with
  | nil => simp [byteLength]
  | cons c rest ih => simp [byteLength, ih, Nat.add_assoc]

/-- A boundary lies in the text. -/
theorem IsBoundary.le {cs : List Char} {n : Nat} (boundary : IsBoundary cs n) : n ≤ byteLength cs := by
  obtain ⟨front, back, rfl, rfl⟩ := boundary
  rw [byteLength_append]
  exact Nat.le_add_right _ _

/-! ## Bytes of a text -/

theorem toList_bytes (text : String) :
    (bytes text).toList = text.toList.flatMap String.utf8EncodeChar := by
  have encoded : text.toUTF8 = (text.toList.flatMap String.utf8EncodeChar).toByteArray := by
    rw [String.toUTF8_eq_toByteArray, ← String.utf8Encode_toList]
    rfl
  rw [bytes, encoded]
  simp

theorem length_encoded (cs : List Char) :
    (cs.flatMap String.utf8EncodeChar).length = byteLength cs := by
  induction cs with
  | nil => rfl
  | cons c rest ih =>
    rw [List.flatMap_cons, List.length_append, String.length_utf8EncodeChar, ih]
    rfl

theorem size_bytes (text : String) : (bytes text).size = byteLength text.toList := by
  rw [← Array.length_toList, toList_bytes, length_encoded]

/-- Among the bytes of a character an ASCII byte stands alone, and is the character. -/
theorem ascii_of_mem_utf8EncodeChar {c : Char} {b : UInt8} (member : b ∈ String.utf8EncodeChar c)
    (ascii : b.toNat < 128) : c.utf8Size = 1 ∧ c = Char.ofNat b.toNat := by
  have small : c.val.toNat ≤ 0x7f := by
    revert member ascii
    fun_cases String.utf8EncodeChar <;>
      simp only [List.mem_cons, List.not_mem_nil, or_false] <;> intro member ascii
    · assumption
    -- The bytes of longer characters all have their highest bit set.
    all_goals
      rcases member with rfl | rfl | rfl | rfl <;> simp only [UInt8.toNat_ofNat'] at ascii <;> omega
  have one : c.utf8Size = 1 := Char.utf8Size_eq_one_iff.mpr small
  refine ⟨one, ?_⟩
  rw [String.utf8EncodeChar_eq_singleton one, List.mem_singleton] at member
  have same : b.toNat = c.toNat := by
    rw [member, UInt32.toNat_toUInt8]
    exact Nat.mod_eq_of_lt (by change c.val.toNat < 256; omega)
  rw [same, Char.ofNat_toNat]

/-- An ASCII byte is a character of its own. -/
theorem split_at_ascii {cs : List Char} {n : Nat} {b : UInt8}
    (found : (cs.flatMap String.utf8EncodeChar)[n]? = some b) (ascii : b.toNat < 128) :
    ∃ front back, cs = front ++ Char.ofNat b.toNat :: back ∧ byteLength front = n ∧
      (Char.ofNat b.toNat).utf8Size = 1 := by
  induction cs generalizing n with
  | nil => simp at found
  | cons c rest ih =>
    rw [List.flatMap_cons] at found
    by_cases inside : n < c.utf8Size
    · rw [List.getElem?_append_left (by simpa using inside)] at found
      obtain ⟨one, same⟩ := ascii_of_mem_utf8EncodeChar (List.mem_of_getElem? found) ascii
      have zero : n = 0 := by omega
      rw [← same]
      exact ⟨[], rest, rfl, by simp [byteLength, zero], one⟩
    · have past : c.utf8Size ≤ n := by omega
      rw [List.getElem?_append_right (by simpa using past)] at found
      obtain ⟨front, back, rfl, length, one⟩ := ih found
      refine ⟨c :: front, back, rfl, ?_, one⟩
      simp only [byteLength, length, String.length_utf8EncodeChar]
      omega

/-- An ASCII byte of a text is a character of its own. -/
theorem split_at_ascii_byte {text : String} {n : Nat} {b : UInt8} (found : (bytes text)[n]? = some b)
    (ascii : b.toNat < 128) :
    ∃ front back, text.toList = front ++ Char.ofNat b.toNat :: back ∧ byteLength front = n ∧
      (Char.ofNat b.toNat).utf8Size = 1 := by
  rw [← Array.getElem?_toList, toList_bytes] at found
  exact split_at_ascii found ascii

/-- There is a boundary in front of an ASCII byte. -/
theorem isBoundary_of_ascii {text : String} {n : Nat} {b : UInt8} (found : (bytes text)[n]? = some b)
    (ascii : b.toNat < 128) : IsBoundary text.toList n := by
  obtain ⟨front, back, whole, length, _⟩ := split_at_ascii_byte found ascii
  exact ⟨front, _, whole, length⟩

/-- There is a boundary after an ASCII byte. -/
theorem isBoundary_succ_of_ascii {text : String} {n : Nat} {b : UInt8}
    (found : (bytes text)[n]? = some b) (ascii : b.toNat < 128) : IsBoundary text.toList (n + 1) := by
  obtain ⟨front, back, whole, length, one⟩ := split_at_ascii_byte found ascii
  refine ⟨front ++ [Char.ofNat b.toNat], back, by simp [whole], ?_⟩
  simp [byteLength, length, one]

/-! ## Cuts -/

theorem cut_of_byteLength (front back : List Char) :
    cut (byteLength front) (front ++ back) = (front, back) := by
  induction front with
  | nil => cases back <;> rfl
  | cons c rest ih =>
    have positive := c.utf8Size_pos
    have notZero : byteLength (c :: rest) ≠ 0 := by simp only [byteLength]; omega
    rw [List.cons_append, cut, if_neg notZero]
    simp only [byteLength, Nat.add_sub_cancel_left, ih]

theorem eq_nil_of_byteLength_eq_zero {cs : List Char} (empty : byteLength cs = 0) : cs = [] := by
  cases cs with
  | nil => rfl
  | cons c rest =>
    have positive := c.utf8Size_pos
    simp only [byteLength] at empty
    omega

/-- Past a prefix of the text a boundary is a boundary of the rest. -/
theorem IsBoundary.after {front cs : List Char} {n : Nat} (boundary : IsBoundary (front ++ cs) n)
    (past : byteLength front ≤ n) : IsBoundary cs (n - byteLength front) := by
  obtain ⟨front', back, whole, length⟩ := boundary
  rcases List.append_eq_append_iff.mp whole with ⟨mid, rfl, rfl⟩ | ⟨mid, rfl, rfl⟩
  · exact ⟨mid, _, rfl, by rw [byteLength_append] at length; omega⟩
  · rw [byteLength_append] at past
    have nothing := eq_nil_of_byteLength_eq_zero (show byteLength mid = 0 by omega)
    subst nothing
    exact ⟨[], _, rfl, by simp [byteLength, ← length]⟩

end Galley.Text
