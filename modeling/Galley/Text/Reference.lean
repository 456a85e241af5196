import Std.Data.HashMap
import Galley.Text.Table
import Galley.Text.ReferenceTable

/-!
# Character references

References such as `&amp;`, `&#38;` and `&#x26;`.

* `NamedReference`, `named?` — the names of the HTML standard and what they stand for;
* `numeric?` — decimal and hexadecimal numbers;
* `decodeReferences` — a text with its complete references replaced. A reference is complete only
  with its semicolon; anything else that begins with an ampersand stays as it is.
-/

namespace Galley.Text

/-- What a name stands for. -/
structure NamedReference where
  /-- The characters that the reference is replaced by. -/
  chars : List Char
  /-- Whether the name also counts when no semicolon follows. -/
  bare : Bool
  deriving Repr, DecidableEq

/-- The names that escaped markup is full of. They are found without the large table. -/
def markupNames : List (String × NamedReference) :=
  [("amp", ⟨['&'], true⟩), ("lt", ⟨['<'], true⟩), ("gt", ⟨['>'], true⟩),
   ("quot", ⟨['\x22'], true⟩), ("nbsp", ⟨['\u00a0'], true⟩)]

/-- A name and its meaning, written as `name=a,b` or as `name:a`. -/
def readNamedReference (cs : List Char) : String × NamedReference :=
  let name := cs.takeWhile Char.isAlphanum
  let rest := cs.drop name.length
  let chars := ((rest.drop 1).splitOn ',').map fun n => Char.ofNat (hexNumber n)
  (String.ofList name, { chars, bare := rest.head? == some ':' })

/-- All names of the standard. -/
def namedReferences : Std.HashMap String NamedReference :=
  Std.HashMap.ofList ((rowEntries namedReferenceRows).map readNamedReference)

/-- What a name stands for, if it is one of the standard. -/
def named? (name : List Char) : Option NamedReference :=
  let name := String.ofList name
  match markupNames.lookup name with
  | some reference => some reference
  | none => namedReferences[name]?

/-- The number that some decimal digits write. -/
def decimalNumber (cs : List Char) : Nat :=
  cs.foldl (fun n c => 10 * n + (c.toNat - 48)) 0

/-- The number in `#38` or `#x26`: after the mark, at least one digit and nothing else. -/
def numeric? : List Char → Option Nat
  | '#' :: 'x' :: digits => hexadecimal? digits
  | '#' :: 'X' :: digits => hexadecimal? digits
  | '#' :: digits =>
    if !digits.isEmpty && digits.all Char.isDigit then some (decimalNumber digits) else none
  | _ => none
where
  /-- The number that hexadecimal digits write, if there are digits only and at least one. -/
  hexadecimal? (digits : List Char) : Option Nat :=
    if !digits.isEmpty && digits.all fun c => (hexValue? c).isSome then some (hexNumber digits)
    else none

/-- Whether a number is the code point of a character: in range and no surrogate. -/
def isScalar (n : Nat) : Bool := n < 0xd800 || (0xdfff < n && n < 0x110000)

/-- What stands between an ampersand and its semicolon, decoded into one character: of the names that
stand for two, the second one is lost. Of the control characters below the space, only tab, line feed,
form feed and carriage return can be written by number. -/
def decodeReference? (body : List Char) : Option (List Char) :=
  match numeric? body with
  | some n =>
    if isScalar n && (32 ≤ n || n == 9 || n == 10 || n == 12 || n == 13) then some [Char.ofNat n]
    else none
  | none => (named? body).map fun reference => reference.chars.take 1

/-- The characters of a text with complete references replaced. -/
def decodeChars (cs : List Char) : List Char :=
  go cs.length cs
where
  /-- `fuel` bounds the number of steps; each step reads at least one character. -/
  go : Nat → List Char → List Char
    | 0, cs => cs
    | _ + 1, [] => []
    | fuel + 1, c :: rest =>
      if c = '&' then
        let body := rest.takeWhile fun d => d != ';' && d != '&'
        match rest.drop body.length with
        | ';' :: after =>
          match decodeReference? body with
          | some chars => chars ++ go fuel after
          | none => c :: go fuel rest
        | _ => c :: go fuel rest
      else
        c :: go fuel rest

/-- A text with its complete references replaced. -/
def decodeReferences (text : String) : String := .ofList (decodeChars text.toList)

end Galley.Text
