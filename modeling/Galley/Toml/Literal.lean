import Galley.Text.Table

/-!
# Quoted texts

Texts in settings stand in quotes or in apostrophes. In quotes a backslash gives the next character a
meaning, in apostrophes every character stands for itself. Three of them in a row enclose several lines.

* `Fault`, `Reading` — what reading gives;
* `escape?` — the character that a backslash and what follows it stand for;
* `quotedBody`, `plainBody` — a text on one line up to its end;
* `quotedLines`, `plainLines` — a text on several lines up to its end;
* `literal?` — a text with what encloses it.
-/

namespace Galley.Toml

/-- The place at which a document is at fault, told by how many characters follow it. -/
structure Fault where
  /-- How many characters follow. -/
  remaining : Nat
  deriving Repr, DecidableEq

/-- What was read and what follows it, or a fault. -/
abbrev Reading (α : Type) := Except Fault (α × List Char)

/-- The fault that a text begins with. -/
def faultAt {α : Type} (cs : List Char) : Except Fault α := .error ⟨cs.length⟩

/-- What was read, changed. -/
def Reading.map {α β : Type} (f : α → β) (reading : Reading α) : Reading β :=
  match reading with
  | .ok (a, rest) => .ok (f a, rest)
  | .error fault => .error fault

/-- Whether a character can stand in a text as it is. -/
def isTextChar (c : Char) : Bool := c == '\t' || (0x20 ≤ c.toNat && c.toNat != 0x7f)

/-- Blanks inside a line. -/
def isSpace (c : Char) : Bool := c == ' ' || c == '\t'

/-- The character with a number that some hexadecimal digits give. -/
def numberedChar? (count : Nat) (cs : List Char) : Option Char :=
  let digits := cs.take count
  if digits.length == count && digits.all fun c => (Text.hexValue? c).isSome then
    let n := Text.hexNumber digits
    if n.isValidChar then some (Char.ofNat n) else none
  else none

/-- The character that a backslash and the beginning of a text stand for, and how long that is. -/
def escape? : List Char → Option (Char × Nat)
  | [] => none
  | c :: rest =>
    if c = 'b' then some ('\x08', 1)
    else if c = 't' then some ('\t', 1)
    else if c = 'n' then some ('\n', 1)
    else if c = 'f' then some ('\x0c', 1)
    else if c = 'r' then some ('\r', 1)
    else if c = 'e' then some ('\x1b', 1)
    else if c = '\x22' then some ('\x22', 1)
    else if c = '\\' then some ('\\', 1)
    else if c = 'x' then (numberedChar? 2 rest).map fun d => (d, 3)
    else if c = 'u' then (numberedChar? 4 rest).map fun d => (d, 5)
    else if c = 'U' then (numberedChar? 8 rest).map fun d => (d, 9)
    else none

/-- A text in quotes, from behind the first quote. -/
def quotedBody : List Char → Reading (List Char)
  | [] => faultAt []
  | c :: rest =>
    if c = '\x22' then .ok ([], rest)
    else if c = '\\' then
      match escape? rest with
      | some (d, length) => (quotedBody (rest.drop length)).map (d :: ·)
      | none => faultAt rest
    else if isTextChar c then (quotedBody rest).map (c :: ·)
    else faultAt (c :: rest)
termination_by cs => cs.length
decreasing_by all_goals (simp only [List.length_cons, List.length_drop]; omega)

/-- A text in apostrophes, from behind the first one. -/
def plainBody : List Char → Reading (List Char)
  | [] => faultAt []
  | c :: rest =>
    if c = '\x27' then .ok ([], rest)
    else if isTextChar c then (plainBody rest).map (c :: ·)
    else faultAt (c :: rest)

/-- What follows the end of a line that a text begins with. -/
def dropBreak? : List Char → Option (List Char)
  | '\n' :: rest => some rest
  | '\r' :: '\n' :: rest => some rest
  | _ => none

/-- What follows the end of a line that a text may begin with. -/
def dropBreak (cs : List Char) : List Char := (dropBreak? cs).getD cs

/-- The end of a text on several lines, if it is there: three marks in a row. One or two more before them
belong to the text. Gives those and what follows the end. -/
def linesEnd? (mark : Char) (cs : List Char) : Option (List Char × List Char) :=
  let count := (cs.takeWhile (· == mark)).length
  if count < 3 then none
  else
    let more := min (count - 3) 2
    some (List.replicate more mark, cs.drop (3 + more))

/-- What follows a backslash at the end of a line: the text goes on where the next one begins. -/
def continued? (cs : List Char) : Option (List Char) :=
  (dropBreak? (cs.dropWhile isSpace)).map fun rest =>
    rest.dropWhile fun c => isSpace c || c == '\n' || c == '\r'

/-- What a backslash at the end of a line leaves is shorter. -/
theorem length_continued? {cs rest : List Char} (h : continued? cs = some rest) :
    rest.length ≤ cs.length := by
  unfold continued? at h
  cases hb : dropBreak? (cs.dropWhile isSpace) with
  | none => simp [hb] at h
  | some after =>
    simp only [hb, Option.map_some, Option.some.injEq] at h
    subst h
    have h1 : (after.dropWhile fun c => isSpace c || c == '\n' || c == '\r').length ≤ after.length :=
      (List.dropWhile_sublist _).length_le
    have h2 : (cs.dropWhile isSpace).length ≤ cs.length := (List.dropWhile_sublist _).length_le
    have h3 : after.length ≤ (cs.dropWhile isSpace).length := by
      unfold dropBreak? at hb
      split at hb <;> simp_all
      omega
    omega

/-- A text in quotes on several lines, from behind the first quotes. -/
def quotedLines : List Char → Reading (List Char)
  | [] => faultAt []
  | c :: rest =>
    match linesEnd? '\x22' (c :: rest) with
    | some (more, after) => .ok (more, after)
    | none =>
      if c = '\\' then
        match h : continued? rest with
        | some after =>
          have := length_continued? h
          quotedLines after
        | none =>
          match escape? rest with
          | some (d, length) => (quotedLines (rest.drop length)).map (d :: ·)
          | none => faultAt rest
      else if c = '\n' || isTextChar c then (quotedLines rest).map (c :: ·)
      else if c = '\r' && rest.head? == some '\n' then quotedLines rest
      else faultAt (c :: rest)
termination_by cs => cs.length
decreasing_by all_goals (simp only [List.length_cons, List.length_drop]; omega)

/-- A text in apostrophes on several lines, from behind the first ones. -/
def plainLines : List Char → Reading (List Char)
  | [] => faultAt []
  | c :: rest =>
    match linesEnd? '\x27' (c :: rest) with
    | some (more, after) => .ok (more, after)
    | none =>
      if c = '\n' || isTextChar c then (plainLines rest).map (c :: ·)
      else if c = '\r' && rest.head? == some '\n' then plainLines rest
      else faultAt (c :: rest)

/-- The text on one line that a document goes on with, if it is one in quotes or apostrophes. -/
def lineLiteral? : List Char → Option (Reading (List Char))
  | '\x22' :: rest => some (quotedBody rest)
  | '\x27' :: rest => some (plainBody rest)
  | _ => none

/-- The text that a document goes on with, if it is one in quotes or apostrophes. A line that ends behind
the first of three of them does not count. -/
def literal? : List Char → Option (Reading (List Char))
  | '\x22' :: '\x22' :: '\x22' :: rest => some (quotedLines (dropBreak rest))
  | '\x27' :: '\x27' :: '\x27' :: rest => some (plainLines (dropBreak rest))
  | cs => lineLiteral? cs

end Galley.Toml
