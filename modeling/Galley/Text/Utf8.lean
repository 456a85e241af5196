/-!
# Text in bytes

Bytes are read as UTF-8 from left to right. Where they are not, the longest part that could still have
become a character counts as one fault.

* `Lead`, `lead` — what bytes begin with: a character, a fault or a part of a character;
* `firstFault?` — the first place at which bytes are no text, and `Fault.message`, how that is said;
* `decodeLossy` — bytes as text, with a replacement character for each fault;
* `decode?` — bytes as text, if they are one.
-/

namespace Galley.Text.Utf8

/-- What bytes begin with. -/
inductive Lead where
  /-- A character and how many bytes it takes. -/
  | char (c : Char) (size : Nat)
  /-- Some bytes that are no character. -/
  | fault (size : Nat)
  /-- The beginning of a character, after which the bytes end. -/
  | cut (size : Nat)
  deriving Repr, DecidableEq

/-- How many bytes follow a first byte, and between which bounds the first of them lies. -/
def following? (first : UInt8) : Option (Nat × UInt8 × UInt8) :=
  if 0xc2 ≤ first && first ≤ 0xdf then some (1, 0x80, 0xbf)
  else if first == 0xe0 then some (2, 0xa0, 0xbf)
  else if first == 0xed then some (2, 0x80, 0x9f)
  else if 0xe1 ≤ first && first ≤ 0xef then some (2, 0x80, 0xbf)
  else if first == 0xf0 then some (3, 0x90, 0xbf)
  else if 0xf1 ≤ first && first ≤ 0xf3 then some (3, 0x80, 0xbf)
  else if first == 0xf4 then some (3, 0x80, 0x8f)
  else none

/-- Reads the bytes after the first one of a character. `value` is what has been read of it, `size` how many
bytes that took, and `low` and `high` bound the next byte. -/
def rest : (count value size : Nat) → (low high : UInt8) → List UInt8 → Lead
  | 0, value, size, _, _, _ => .char (.ofNat value) size
  | _ + 1, _, size, _, _, [] => .cut size
  | count + 1, value, size, low, high, b :: bs =>
    if low ≤ b && b ≤ high then
      rest count (64 * value + b.toNat % 64) (size + 1) 0x80 0xbf bs
    else .fault size

/-- What some bytes begin with. -/
def lead (first : UInt8) (bs : List UInt8) : Lead :=
  if first < 0x80 then .char (.ofNat first.toNat) 1
  else
    match following? first with
    | none => .fault 1
    | some (count, low, high) => rest count (first.toNat % (64 >>> count)) 1 low high bs

/-- How many bytes it takes. -/
def Lead.size : Lead → Nat
  | char _ size => size
  | fault size => size
  | cut size => size

/-- A place at which bytes are no text. -/
structure Fault where
  /-- How many bytes stand before it. -/
  position : Nat
  /-- How many bytes it takes, or nothing if a character is cut off. -/
  size : Option Nat
  deriving Repr, DecidableEq

/-- The leads of some bytes, each with its place. `position` is the place of the first byte. -/
def leads (position : Nat) : List UInt8 → List (Nat × Lead)
  | [] => []
  | b :: bs =>
    let next := lead b bs
    (position, next) :: leads (position + next.size) (bs.drop (next.size - 1))
termination_by bs => bs.length
decreasing_by simp only [List.length_cons, List.length_drop]; omega

/-- The first place at which bytes are no text. -/
def firstFault? (bytes : ByteArray) : Option Fault :=
  (leads 0 bytes.toList).findSome? fun (position, next) =>
    match next with
    | .char _ _ => none
    | .fault size => some ⟨position, some size⟩
    | .cut _ => some ⟨position, none⟩

/-- A fault in words. -/
def Fault.message (fault : Fault) : String :=
  match fault.size with
  | some size =>
    "invalid utf-8 sequence of " ++ toString size ++ " bytes from index " ++ toString fault.position
  | none => "incomplete utf-8 byte sequence from index " ++ toString fault.position

/-- Bytes as text, with a replacement character for each fault. -/
def decodeLossy (bytes : ByteArray) : List Char :=
  (leads 0 bytes.toList).map fun (_, next) =>
    match next with
    | .char c _ => c
    | _ => '\ufffd'

/-- Bytes as text, if they are one. -/
def decode? (bytes : ByteArray) : Option String := String.fromUTF8? bytes

end Galley.Text.Utf8
