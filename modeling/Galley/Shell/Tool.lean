import Galley.Files.Tree
import Galley.Shell.Pattern
import Galley.Text.Blank

/-!
# Tools

Small programs that scripts call: each reads its arguments and its input and writes its answer.

* `Answer` — what a tool gives;
* `echoBytes`, `printfBytes` — texts in which a backslash names characters;
* `test?` — conditions;
* `Tool.run?` — a tool by its name.
-/

namespace Galley.Shell

open Galley.Files (Tree)

/-- What a tool gives. -/
structure Answer where
  /-- Its status: zero if it succeeds. -/
  status : Nat
  /-- What it writes. -/
  output : ByteArray
  /-- What it writes about errors. -/
  errors : String
  /-- What it leaves to be read. -/
  input : List UInt8
  /-- How many milliseconds it takes. -/
  millis : Nat

/-- The bytes of a text. -/
def textBytes (text : String) : List UInt8 := text.toUTF8.toList

/-- Bytes in a row. -/
def byteArray (bytes : List UInt8) : ByteArray := ⟨bytes.toArray⟩

namespace Answer

/-- A tool that writes something. -/
def writes (input bytes : List UInt8) : Answer := ⟨0, byteArray bytes, "", input, 0⟩

/-- A tool that only has a status. -/
def ends (input : List UInt8) (status : Nat) : Answer := ⟨status, .empty, "", input, 0⟩

/-- A tool that fails. -/
def fails (input : List UInt8) (status : Nat) (errors : String) : Answer :=
  ⟨status, .empty, errors, input, 0⟩

end Answer

/-! ## Named characters -/

/-- The byte that a letter after a backslash names. -/
def namedByte? (c : Char) : Option UInt8 :=
  match c with
  | 'a' => some 7
  | 'b' => some 8
  | 'f' => some 12
  | 'n' => some 10
  | 'r' => some 13
  | 't' => some 9
  | 'v' => some 11
  | '\\' => some 92
  | _ => none

/-- Octal digits, `most` at most. -/
def octalDigits (most : Nat) (cs : List Char) : List Char :=
  (cs.take most).takeWhile fun c => '0' ≤ c && c ≤ '7'

/-- The byte that octal digits name. -/
def octalByte (digits : List Char) : UInt8 :=
  (digits.foldl (fun (n : Nat) c => 8 * n + (c.toNat - 48)) 0).toUInt8

/-- The bytes of a text in which a backslash names characters, and whether it goes on after it. Octal
numbers begin with a zero that does not count if `hasZero` holds. `fuel` bounds how many characters there
are. -/
def namedBytes (hasZero : Bool) : (fuel : Nat) → List Char → List UInt8 × Bool
  | 0, _ => ([], true)
  | _, [] => ([], true)
  | fuel + 1, '\\' :: c :: rest =>
    match namedByte? c with
    | some b => let (bytes, goesOn) := namedBytes hasZero fuel rest; (b :: bytes, goesOn)
    | none =>
      if c = 'c' then ([], false)
      else
        let digits := if hasZero then (if c = '0' then octalDigits 3 rest else [])
          else octalDigits 3 (c :: rest)
        if digits.isEmpty && !(hasZero && c = '0') then
          let (bytes, goesOn) := namedBytes hasZero fuel rest
          (textBytes ("\\" ++ String.singleton c) ++ bytes, goesOn)
        else
          let after := if hasZero then rest.drop digits.length else (c :: rest).drop digits.length
          let (bytes, goesOn) := namedBytes hasZero fuel after
          (octalByte digits :: bytes, goesOn)
  | fuel + 1, c :: rest =>
    let (bytes, goesOn) := namedBytes hasZero fuel rest
    (textBytes (.singleton c) ++ bytes, goesOn)

/-- Some texts with blanks between them and a line feed at the end. -/
def echoBytes (arguments : List String) : List UInt8 :=
  let (words, ending) : List String × List UInt8 := match arguments with
    | "-n" :: rest => (rest, [])
    | _ => (arguments, [10])
  let text := (String.intercalate " " words).toList
  let (bytes, goesOn) := namedBytes true text.length text
  if goesOn then bytes ++ ending else bytes

/-- A text with arguments in their places, and the arguments that are left. `fuel` bounds how many
characters there are. -/
def formatBytes : (fuel : Nat) → List Char → List String → List UInt8 × List String
  | 0, _, arguments => ([], arguments)
  | _, [], arguments => ([], arguments)
  | fuel + 1, '%' :: c :: rest, arguments =>
    let argument := arguments.head?.getD ""
    let left := arguments.drop 1
    match c with
    | '%' => let (bytes, after) := formatBytes fuel rest arguments; (37 :: bytes, after)
    | 's' => let (bytes, after) := formatBytes fuel rest left; (textBytes argument ++ bytes, after)
    | 'b' =>
      let (bytes, after) := formatBytes fuel rest left
      ((namedBytes true argument.length argument.toList).1 ++ bytes, after)
    | 'd' =>
      let (bytes, after) := formatBytes fuel rest left
      (textBytes (toString (argument.toInt?.getD 0)) ++ bytes, after)
    | _ =>
      let (bytes, after) := formatBytes fuel rest arguments
      (textBytes ("%" ++ String.singleton c) ++ bytes, after)
  | fuel + 1, '\\' :: rest, arguments =>
    let length := match rest with
      | [] => 0
      | c :: _ =>
        let digits := octalDigits 3 rest
        if (namedByte? c).isSome || digits.isEmpty then 1 else digits.length
    let piece := (namedBytes false (length + 1) ('\\' :: rest.take length)).1
    let (bytes, after) := formatBytes fuel (rest.drop length) arguments
    (piece ++ bytes, after)
  | fuel + 1, c :: rest, arguments =>
    let (bytes, after) := formatBytes fuel rest arguments
    (textBytes (.singleton c) ++ bytes, after)

/-- A text with arguments in their places, again and again while arguments are left. `fuel` bounds how
often. -/
def printfBytes (format : List Char) : (fuel : Nat) → List String → List UInt8
  | 0, _ => []
  | fuel + 1, arguments =>
    let (bytes, left) := formatBytes format.length format arguments
    if left.isEmpty || left.length == arguments.length then bytes
    else bytes ++ printfBytes format fuel left

/-! ## Conditions and numbers -/

/-- Whether a condition holds. -/
def test? (tree : Tree) : List String → Option Bool
  | [] => some false
  | [text] => some (text != "")
  | "!" :: rest => (test? tree rest).map (!·)
  | ["-n", text] => some (text != "")
  | ["-z", text] => some (text == "")
  | ["-e", path] => some (tree.has path)
  | ["-f", path] => some (tree.has path && !tree.hasDirectory path)
  | ["-d", path] => some (tree.hasDirectory path)
  | [a, "=", b] => some (a == b)
  | [a, "!=", b] => some (a != b)
  | [a, operation, b] => do
    let m ← a.toInt?
    let n ← b.toInt?
    match operation with
    | "-eq" => some (m == n)
    | "-ne" => some (m != n)
    | "-lt" => some (m < n)
    | "-le" => some (m ≤ n)
    | "-gt" => some (m > n)
    | "-ge" => some (m ≥ n)
    | _ => none
  | _ => none

/-- A decimal number of seconds in milliseconds. -/
def millis? (text : String) : Option Nat := do
  let (whole, fraction) := text.toList.span (· != '.')
  let digits := (fraction.drop 1).take 3
  let all := whole ++ digits ++ List.replicate (3 - digits.length) '0'
  if text.isEmpty || !all.all Char.isDigit then none
  else some (all.foldl (fun (n : Nat) c => 10 * n + (c.toNat - 48)) 0)

/-- Lines of bytes, each without its end. -/
def byteLines (bytes : List UInt8) : List (List UInt8) :=
  let pieces : List (List UInt8) := bytes.foldr (fun b lines =>
    if b == 10 then [] :: lines
    else
      match lines with
      | line :: rest => (b :: line) :: rest
      | [] => [[b]]) [[]]
  if pieces.getLast? == some [] then pieces.dropLast else pieces

/-- Bytes as characters. -/
def byteChars (bytes : List UInt8) : List Char := Text.Utf8.decodeLossy (byteArray bytes)

/-! ## Tools by their names -/

/-- A tool that does not know an option. -/
def refusesOption? (name : String) (input : List UInt8) (arguments : List String) : Option Answer :=
  (arguments.find? fun argument => "--".toList.isPrefixOf argument.toList && argument != "--").map
    fun option => .fails input 1 (name ++ ": unrecognized option '" ++ option ++ "'\nTry '" ++ name ++
      " --help' for more information.\n")

/-- Files in a row, or the input. -/
def catAnswer (tree : Tree) (input : List UInt8) (arguments : List String) : Answer :=
  let paths := if arguments.isEmpty then ["-"] else arguments
  paths.foldl (fun answer path =>
    if path == "-" then
      { answer with output := answer.output ++ byteArray answer.input, input := [] }
    else
      match tree.read path with
      | .ok content => { answer with output := answer.output ++ content }
      | .error error =>
        { answer with
          status := 1
          errors := answer.errors ++ "cat: " ++ path ++ ": " ++ error.text ++ "\n" })
    (.ends input 0)

/-- Lines that hold what a pattern says. -/
def grepAnswer (input : List UInt8) (arguments : List String) : Answer :=
  let options := (arguments.takeWhile fun argument => argument.toList.head? == some '-').flatMap
    fun argument => argument.toList.drop 1
  let rest := arguments.dropWhile fun argument => argument.toList.head? == some '-'
  let lower (cs : List Char) : List Char := if options.contains 'i' then lowerLine cs else cs
  let cs := lower (rest.head?.getD "").toList
  let pattern := if options.contains 'F' then Pattern.literal cs else .ofChars cs
  let found := (byteLines input).filter fun line =>
    pattern.matches (lower (byteChars line)) != options.contains 'v'
  let status := if found.isEmpty then 1 else 0
  let output :=
    if options.contains 'q' then []
    else if options.contains 'c' then textBytes (toString found.length ++ "\n")
    else found.flatMap (· ++ [10])
  ⟨status, byteArray output, "", [], 0⟩

/-- The first bytes or lines. -/
def headAnswer (input : List UInt8) (arguments : List String) : Answer :=
  match arguments with
  | ["-c", count] =>
    let count := count.toNat?.getD 0
    .writes (input.drop count) (input.take count)
  | _ =>
    let count := match arguments with
      | ["-n", count] => count.toNat?.getD 10
      | [option] => (String.ofList (option.toList.drop 1)).toNat?.getD 10
      | _ => 10
    .writes [] (((byteLines input).take count).flatMap (· ++ [10]))

/-- The last lines. -/
def tailAnswer (input : List UInt8) (arguments : List String) : Answer :=
  let count := match arguments with
    | ["-n", count] => count.toNat?.getD 10
    | [option] => (String.ofList (option.toList.drop 1)).toNat?.getD 10
    | _ => 10
  let lines := byteLines input
  .writes [] ((lines.drop (lines.length - count)).flatMap (· ++ [10]))

/-- The characters of a set: a hyphen stands for all between its neighbours, and a backslash names
characters. -/
def namedSet (text : String) : List Char :=
  setChars (byteChars (namedBytes false text.length text.toList).1)

/-- The input with the characters of one set replaced by those of another, or left out. -/
def exchangeAnswer (input : List UInt8) (arguments : List String) : Answer :=
  let cs := byteChars input
  match arguments with
  | ["-d", chars] => .writes [] (textBytes (.ofList (cs.filter fun c => !(namedSet chars).contains c)))
  | [chars, others] =>
    let others := namedSet others
    let pairs := (namedSet chars).zipIdx.map fun (c, i) => (c, (others[i]?.or others.getLast?).getD c)
    .writes [] (textBytes (.ofList (cs.map fun c => (pairs.lookup c).getD c)))
  | _ => .fails [] 1 "tr: missing operand\nTry 'tr --help' for more information.\n"

/-- How many bytes, lines or words there are. -/
def countAnswer (input : List UInt8) (arguments : List String) : Answer :=
  let count := match arguments with
    | ["-l"] => input.count 10
    | ["-w"] => (Text.words (byteChars input)).length
    | ["-m"] => (byteChars input).length
    | _ => input.length
  .writes [] (textBytes (toString count ++ "\n"))

/-- The tools that are programs of their own. -/
def toolNames : List String :=
  ["cat", "echo", "printf", "true", "false", "sleep", "grep", "head", "tail", "tr", "wc", "test", "["]

/-- A tool by its name. -/
def runTool? (tree : Tree) (input : List UInt8) (name : String) (arguments : List String) :
    Option Answer :=
  match name with
  | "true" => some (.ends input 0)
  | ":" => some (.ends input 0)
  | "false" => some (.ends input 1)
  | "echo" => some (.writes input (echoBytes arguments))
  | "printf" =>
    match arguments with
    | [] => some (.fails input 2 "printf: usage: printf format [arg ...]\n")
    | format :: rest => some (.writes input (printfBytes format.toList (rest.length + 1) rest))
  | "cat" => some ((refusesOption? name input arguments).getD (catAnswer tree input arguments))
  | "grep" => some (grepAnswer input arguments)
  | "head" => some ((refusesOption? name input arguments).getD (headAnswer input arguments))
  | "tail" => some ((refusesOption? name input arguments).getD (tailAnswer input arguments))
  | "tr" => some ((refusesOption? name input arguments).getD (exchangeAnswer input arguments))
  | "wc" => some ((refusesOption? name input arguments).getD (countAnswer input arguments))
  | "sleep" =>
    some ((refusesOption? name input arguments).getD
      { Answer.ends input 0 with millis := (arguments.filterMap millis?).foldl (· + ·) 0 })
  | "test" => some (.ends input (match test? tree arguments with
      | some true => 0
      | some false => 1
      | none => 2))
  | "[" => some (.ends input (match test? tree arguments.dropLast with
      | some true => 0
      | some false => 1
      | none => 2))
  | _ => none

end Galley.Shell
