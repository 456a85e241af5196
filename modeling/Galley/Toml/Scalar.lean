import Galley.Text.Table

/-!
# Numbers and dates

Settings hold neither, but a file may do so. Here is how they are written.

* `isInteger`, `isFloat` — numbers;
* `isDate`, `isTime`, `isDateTime` — dates and times;
* `isScalar` — any of them.
-/

namespace Galley.Toml

/-- Digits of some kind, between which single low lines may stand. -/
def areDigits (isDigit : Char → Bool) : List Char → Bool
  | [] => false
  | [c] => isDigit c
  | c :: '_' :: rest => isDigit c && areDigits isDigit rest
  | c :: rest => isDigit c && areDigits isDigit rest

/-- A text without the sign that it may begin with. -/
def dropSign : List Char → List Char
  | '+' :: rest => rest
  | '-' :: rest => rest
  | cs => cs

/-- Whether a text is a whole number without sign: no zero stands before other digits. -/
def isWhole (cs : List Char) : Bool :=
  areDigits Char.isDigit cs && (cs.length == 1 || cs.head? != some '0')

/-- Whether a text is a whole number. -/
def isInteger (cs : List Char) : Bool :=
  match cs with
  | '0' :: 'x' :: rest => areDigits (fun c => (Text.hexValue? c).isSome) rest
  | '0' :: 'o' :: rest => areDigits (fun c => '0' ≤ c && c ≤ '7') rest
  | '0' :: 'b' :: rest => areDigits (fun c => c == '0' || c == '1') rest
  | _ => isWhole (dropSign cs)

/-- Whether a text is a number with a fraction or an exponent. -/
def isFloat (cs : List Char) : Bool :=
  let bare := dropSign cs
  let isExponent (c : Char) : Bool := c == 'e' || c == 'E'
  let (mantissa, exponent) := bare.span fun c => !isExponent c
  let (whole, fraction) := mantissa.span (· != '.')
  bare == "inf".toList || bare == "nan".toList ||
    (isWhole whole && (!fraction.isEmpty || !exponent.isEmpty) &&
      (fraction.isEmpty || areDigits Char.isDigit (fraction.drop 1)) &&
      (exponent.isEmpty || areDigits Char.isDigit (dropSign (exponent.drop 1))))

/-- The number that some digits give. -/
def decimal (cs : List Char) : Nat := cs.foldl (fun n c => 10 * n + (c.toNat - 48)) 0

/-- Whether a text is a number of so many digits between two bounds. -/
def isBetween (count low high : Nat) (cs : List Char) : Bool :=
  cs.length == count && cs.all Char.isDigit && low ≤ decimal cs && decimal cs ≤ high

/-- How many days a month has. -/
def daysIn (year month : Nat) : Nat :=
  if month == 2 then
    if year % 4 == 0 && (year % 100 != 0 || year % 400 == 0) then 29 else 28
  else if [4, 6, 9, 11].contains month then 30 else 31

/-- Whether a text is a date. -/
def isDate (cs : List Char) : Bool :=
  let year := cs.take 4
  let month := (cs.drop 5).take 2
  cs.length == 10 && cs[4]? == some '-' && cs[7]? == some '-' && isBetween 4 0 9999 year &&
    isBetween 2 1 12 month &&
    isBetween 2 1 (daysIn (decimal year) (decimal month)) (cs.drop 8)

/-- Whether a text is hours and minutes. -/
def isMinute (cs : List Char) : Bool :=
  cs.length == 5 && cs[2]? == some ':' && isBetween 2 0 23 (cs.take 2) && isBetween 2 0 59 (cs.drop 3)

/-- Whether a text is a time of day. Seconds and their fractions may be left out. -/
def isTime (cs : List Char) : Bool :=
  isMinute (cs.take 5) &&
    match cs.drop 5 with
    | [] => true
    | ':' :: rest =>
      isBetween 2 0 60 (rest.take 2) &&
        match rest.drop 2 with
        | [] => true
        | '.' :: digits => !digits.isEmpty && digits.all Char.isDigit
        | _ => false
    | _ => false

/-- Whether a text is a time of day with the distance to the time of reference. -/
def isOffsetTime (cs : List Char) : Bool :=
  match cs.reverse with
  | 'Z' :: rest => isTime rest.reverse
  | 'z' :: rest => isTime rest.reverse
  | _ =>
    let offset := cs.drop (cs.length - 6)
    (offset.head? == some '+' || offset.head? == some '-') && isMinute (offset.drop 1) &&
      isTime (cs.take (cs.length - 6))

/-- Whether a text is a date with a time of day. -/
def isDateTime (cs : List Char) : Bool :=
  isDate (cs.take 10) &&
    (match cs[10]? with
      | some c => c == 'T' || c == 't' || c == ' '
      | none => false) &&
    (isTime (cs.drop 11) || isOffsetTime (cs.drop 11))

/-- Whether a text is a number or a date. -/
def isScalar (cs : List Char) : Bool :=
  isInteger cs || isFloat cs || isDate cs || isTime cs || isDateTime cs

end Galley.Toml
