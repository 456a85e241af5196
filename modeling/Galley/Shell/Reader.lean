import Galley.Shell.Script

/-!
# Reading scripts

A script is read into tokens, and the tokens into commands.

* `Token`, `tokens?` — words and the signs between them;
* `command?`, `pipeline?`, `chain?`, `listing?` — commands;
* `parse?` — a whole script.
-/

namespace Galley.Shell

/-! ## Words -/

/-- Characters of names. -/
def isNameChar (c : Char) : Bool := c == '_' || c.isAlphanum

/-- The parameters with names of one sign. -/
def specialNames : List Char := "*@#?$!0123456789-".toList

/-- What stands before a closing sign, and what follows it. Text in quotes and further pairs of the signs
are skipped. `depth` is how many pairs are open. -/
def enclosed? (opening closing : Char) (depth : Nat) : List Char → Option (List Char × List Char)
  | [] => none
  | '\\' :: c :: rest =>
    (enclosed? opening closing depth rest).map fun (inner, after) => ('\\' :: c :: inner, after)
  | c :: rest =>
    if c = closing then
      match depth with
      | 0 => some ([], rest)
      | depth + 1 =>
        (enclosed? opening closing depth rest).map fun (inner, after) => (c :: inner, after)
    else
      let depth := if c = opening then depth + 1 else depth
      (enclosed? opening closing depth rest).map fun (inner, after) => (c :: inner, after)

/-- What stands between braces as a parameter: a name and what stands for it if it is empty. -/
def bracedPart (isQuoted : Bool) (inner : List Char) : Part :=
  let name := if inner.head?.any specialNames.contains then inner.take 1 else inner.takeWhile isNameChar
  match inner.drop name.length with
  | ':' :: '-' :: fallback => .parameter (.ofList name) (some (.ofList fallback)) isQuoted
  | '-' :: fallback => .parameter (.ofList name) (some (.ofList fallback)) isQuoted
  | _ => .parameter (.ofList name) none isQuoted

/-- The part that follows a dollar sign, and what follows it. -/
def dollar? (isQuoted : Bool) (cs : List Char) : Option (Part × List Char) :=
  match cs with
  | '(' :: rest =>
    (enclosed? '(' ')' 0 rest).map fun (inner, after) => (.output (.ofList inner) isQuoted, after)
  | '\x7b' :: rest =>
    (enclosed? '\x7b' '\x7d' 0 rest).map fun (inner, after) => (bracedPart isQuoted inner, after)
  | c :: rest =>
    if specialNames.contains c then some (.parameter (.singleton c) none isQuoted, rest)
    else
      let name := cs.takeWhile isNameChar
      if name.isEmpty then some (.text "$" isQuoted, cs)
      else some (.parameter (.ofList name) none isQuoted, cs.drop name.length)
  | [] => some (.text "$" isQuoted, [])

/-- A script between two accents, and what follows it. -/
def accents? (isQuoted : Bool) (cs : List Char) : Option (Part × List Char) :=
  let inner := cs.takeWhile (· != '\x60')
  match cs.drop inner.length with
  | _ :: after => some (.output (.ofList inner) isQuoted, after)
  | [] => none

/-- Text with more of the same kind in front. -/
def prepend (c : Char) (isQuoted : Bool) (word : Word) : Word :=
  match word with
  | .text text quoted :: rest =>
    if quoted == isQuoted then .text (.ofList (c :: text.toList)) quoted :: rest
    else .text (.singleton c) isQuoted :: word
  | _ => .text (.singleton c) isQuoted :: word

/-- Signs that end a word. -/
def endsWord (c : Char) : Bool := " \t\n;&|()<>".toList.contains c

/-- The parts of a word, and what follows it. `inQuotes` tells whether quotes are open. `fuel` bounds how
many characters there are. -/
def word? : (fuel : Nat) → (inQuotes : Bool) → List Char → Option (Word × List Char)
  | 0, _, _ => none
  | _ + 1, true, [] => none
  | _ + 1, false, [] => some ([], [])
  | fuel + 1, inQuotes, c :: rest =>
    let found (part : Part) (after : List Char) : Option (Word × List Char) :=
      (word? fuel inQuotes after).map fun (parts, left) => (part :: parts, left)
    if c = '\x22' then
      (word? fuel (!inQuotes) rest).map fun (parts, left) => (.text "" true :: parts, left)
    else if c = '$' then (dollar? inQuotes rest).bind fun (part, after) => found part after
    else if c = '\x60' then (accents? inQuotes rest).bind fun (part, after) => found part after
    else if c = '\\' then
      match rest with
      | [] => some ([.text "\\" inQuotes], [])
      | '\n' :: after => word? fuel inQuotes after
      | d :: after =>
        if inQuotes && !"$\x60\"\\".toList.contains d then
          (word? fuel inQuotes rest).map fun (parts, left) => (prepend c true parts, left)
        else (word? fuel inQuotes after).map fun (parts, left) => (prepend d true parts, left)
    else if inQuotes then
      (word? fuel inQuotes rest).map fun (parts, left) => (prepend c true parts, left)
    else if c = '\x27' then
      let inner := rest.takeWhile (· != '\x27')
      match rest.drop inner.length with
      | _ :: after => found (.text (.ofList inner) true) after
      | [] => none
    else if endsWord c then some ([], c :: rest)
    else (word? fuel inQuotes rest).map fun (parts, left) => (prepend c false parts, left)

/-! ## Tokens -/

/-- A word or a sign between words. -/
inductive Token where
  /-- A word, on a line. -/
  | word (line : Nat) (word : Word)
  /-- A sign that orders commands. The end of a line is one. -/
  | sign (text : String)
  /-- A sign for where a stream goes: its number, and the sign. The word after it tells the rest. -/
  | redirect (stream : Nat) (text : String)
  deriving Repr, DecidableEq

/-- The signs that order commands, longer ones first. -/
def signs : List String := ["&&", "||", ";;", ";", "&", "|", "(", ")", "\n"]

/-- The signs for where streams go, longer ones first, and the streams they are for. -/
def redirectSigns : List (String × Nat) := [(">>", 1), (">&", 1), ("<&", 0), (">", 1), ("<", 0)]

/-- The first of some texts that another text begins with, and what follows it. -/
def dropOneOf? (starts : List String) (cs : List Char) : Option (String × List Char) :=
  starts.findSome? fun start => (start.toList.isPrefixOf? cs).map fun rest => (start, rest)

/-- The sign for where a stream goes that a text begins with, with the number in front of it. -/
def redirect? (cs : List Char) : Option (Token × List Char) :=
  let (number, rest) := match cs with
    | c :: more => if c.isDigit then (some (c.toNat - 48), more) else (none, cs)
    | [] => (none, cs)
  (dropOneOf? (redirectSigns.map Prod.fst) rest).map fun (sign, after) =>
    (.redirect (number.getD ((redirectSigns.lookup sign).getD 0)) sign, after)

/-- The tokens of a script. `fuel` bounds how many characters there are. -/
def tokens? : (fuel line : Nat) → List Char → Option (List Token)
  | 0, _, _ => none
  | _ + 1, _, [] => some []
  | fuel + 1, line, c :: rest =>
    if c = ' ' || c = '\t' then tokens? fuel line rest
    else if c = '#' then tokens? fuel line (rest.dropWhile (· != '\n'))
    else
      match redirect? (c :: rest) with
      | some (token, after) => (tokens? fuel line after).map (token :: ·)
      | none =>
        match dropOneOf? signs (c :: rest) with
        | some (sign, after) =>
          (tokens? fuel (if sign == "\n" then line + 1 else line) after).map (.sign sign :: ·)
        | none =>
          match word? (rest.length + 2) false (c :: rest) with
          | none => none
          | some (word, after) =>
            let read := (c :: rest).take (rest.length + 1 - after.length)
            (tokens? fuel (line + read.count '\n') after).map (.word line word :: ·)

/-! ## Commands -/

/-- The words that order commands. -/
def reservedWords : List String :=
  ["if", "then", "elif", "else", "fi", "while", "until", "do", "done", "for", "in", "case", "esac", "\x7b",
   "\x7d", "!"]

/-- The word that orders commands with which some tokens begin. -/
def reserved? : List Token → Option String
  | .word _ [.text text false] :: _ => if reservedWords.contains text then some text else none
  | _ => none

/-- What follows a given word that orders commands. -/
def dropReserved? (name : String) (tokens : List Token) : Option (List Token) :=
  if reserved? tokens == some name then some (tokens.drop 1) else none

/-- Tokens without the ends of lines that they begin with. -/
def dropBreaks (tokens : List Token) : List Token := tokens.dropWhile (· == .sign "\n")

/-- The setting of a variable that a word is. -/
def setting? : Word → Option (String × Word)
  | .text text false :: rest =>
    let name := text.toList.takeWhile isNameChar
    match text.toList.drop name.length with
    | '=' :: value =>
      if name.isEmpty || name.head?.any Char.isDigit then none
      else some (.ofList name, .text (.ofList value) false :: rest)
    | _ => none
  | _ => none

/-- Where a stream goes, by the sign and the word after it. -/
def target? (sign : String) (word : Word) : Option Target :=
  if sign == ">" then some (.file word)
  else if sign == ">>" then some (.append word)
  else if sign == "<" then some (.source word)
  else
    match word with
    | [.text "-" _] => some .closed
    | [.text text _] => text.toNat?.map .stream
    | _ => none

/-- The streams that some tokens direct, and what follows. -/
def redirections? : List Token → Option (List Redirection × List Token)
  | .redirect stream sign :: .word _ word :: rest => do
    let target ← target? sign word
    let (more, after) ← redirections? rest
    return (⟨stream, target⟩ :: more, after)
  | .redirect _ _ :: _ => none
  | tokens => some ([], tokens)

/-- The words and streams of a simple command, and what follows. -/
def simpleParts? : List Token → Option (List Word × List Redirection × List Token)
  | .word _ word :: rest => do
    let (words, redirections, after) ← simpleParts? rest
    return (word :: words, redirections, after)
  | .redirect stream sign :: .word _ word :: rest => do
    let target ← target? sign word
    let (words, redirections, after) ← simpleParts? rest
    return (words, ⟨stream, target⟩ :: redirections, after)
  | .redirect _ _ :: _ => none
  | tokens => some ([], [], tokens)

/-- A simple command, and what follows. -/
def simple? (tokens : List Token) : Option (Command × List Token) := do
  let line := (tokens.findSome? fun token =>
    match token with
    | .word line _ => some line
    | _ => none).getD 1
  let (words, redirections, rest) ← simpleParts? tokens
  if words.isEmpty && redirections.isEmpty then none
  else
    let settings := (words.map setting?).takeWhile Option.isSome
    return (.simple line (settings.filterMap id) (words.drop settings.length) redirections, rest)

/-- A command with the streams that follow it. -/
def withStreams? (isEnclosed : Bool) (body : Command) (tokens : List Token) :
    Option (Command × List Token) := do
  let (redirections, rest) ← redirections? tokens
  return (.group isEnclosed body redirections, rest)

/-- The patterns that a word is compared with, and what follows the parenthesis after them. -/
def patterns? : List Token → Option (List Word × List Token)
  | .word _ pattern :: .sign ")" :: rest => some ([pattern], rest)
  | .word _ pattern :: .sign "|" :: rest =>
    (patterns? rest).map fun (patterns, after) => (pattern :: patterns, after)
  | _ => none

mutual

/-- One command, and what follows. -/
def command? : (fuel : Nat) → List Token → Option (Command × List Token)
  | 0, _ => none
  | fuel + 1, tokens =>
    match tokens with
    | .sign "(" :: rest => do
      let (body, after) ← listing? fuel rest
      match after with
      | .sign ")" :: more => withStreams? true body more
      | _ => none
    | _ =>
      match reserved? tokens with
      | some "\x7b" => do
        let (body, after) ← listing? fuel (tokens.drop 1)
        withStreams? false body (← dropReserved? "\x7d" after)
      | some "if" => do
        let (body, after) ← branch? fuel (tokens.drop 1)
        withStreams? false body after
      | some "while" => do
        let (body, after) ← loop? fuel false (tokens.drop 1)
        withStreams? false body after
      | some "until" => do
        let (body, after) ← loop? fuel true (tokens.drop 1)
        withStreams? false body after
      | some "for" =>
        match tokens.drop 1 with
        | .word _ [.text name false] :: rest => do
          let (words, after) ← match dropReserved? "in" (dropBreaks rest) with
            | some given => (simpleParts? given).map fun (words, _, after) => (words, after)
            | none => some ([[.parameter "@" none true]], rest)
          let start ← dropReserved? "do" (after.dropWhile fun token =>
            token == .sign ";" || token == .sign "\n")
          let (body, more) ← listing? fuel start
          withStreams? false (.forEach name words body) (← dropReserved? "done" more)
        | _ => none
      | some "case" =>
        match tokens.drop 1 with
        | .word _ subject :: rest => do
          let (body, more) ← cases? fuel subject (← dropReserved? "in" (dropBreaks rest))
          withStreams? false body more
        | _ => none
      | some _ => none
      | none => simple? tokens

/-- What a word is compared with, and what is done then, up to the end. -/
def cases? : (fuel : Nat) → (subject : Word) → List Token → Option (Command × List Token)
  | 0, _, _ => none
  | fuel + 1, subject, tokens =>
    let start := dropBreaks tokens
    match dropReserved? "esac" start with
    | some rest => some (.nothing, rest)
    | none => do
      let (patterns, rest) ← patterns? (if start.head? == some (.sign "(") then start.drop 1 else start)
      let (yes, after) ← listing? fuel rest
      match after with
      | .sign ";;" :: more =>
        let (no, left) ← cases? fuel subject more
        return (.compare subject patterns yes no, left)
      | _ => return (.compare subject patterns yes .nothing, ← dropReserved? "esac" after)

/-- What follows the word that begins a condition, up to its end. -/
def branch? : (fuel : Nat) → List Token → Option (Command × List Token)
  | 0, _ => none
  | fuel + 1, tokens => do
    let (condition, rest) ← listing? fuel tokens
    let (yes, after) ← listing? fuel (← dropReserved? "then" rest)
    match reserved? after with
    | some "fi" => return (.choose condition yes .nothing, after.drop 1)
    | some "else" =>
      let (no, more) ← listing? fuel (after.drop 1)
      return (.choose condition yes no, ← dropReserved? "fi" more)
    | some "elif" =>
      let (no, more) ← branch? fuel (after.drop 1)
      return (.choose condition yes no, more)
    | _ => none

/-- What follows the word that begins a loop, up to its end. -/
def loop? : (fuel : Nat) → (isUntil : Bool) → List Token → Option (Command × List Token)
  | 0, _, _ => none
  | fuel + 1, isUntil, tokens => do
    let (condition, rest) ← listing? fuel tokens
    let (body, after) ← listing? fuel (← dropReserved? "do" rest)
    return (.repeated isUntil condition body, ← dropReserved? "done" after)

/-- Commands of which each reads what the one before writes. -/
def pipeline? : (fuel : Nat) → List Token → Option (Command × List Token)
  | 0, _ => none
  | fuel + 1, tokens =>
    match dropReserved? "!" tokens with
    | some rest => (pipeline? fuel rest).map fun (command, after) => (.negate command, after)
    | none => do
      let (first, rest) ← command? fuel tokens
      match rest with
      | .sign "|" :: after =>
        let (second, more) ← pipeline? fuel (dropBreaks after)
        return (.pipe first second, more)
      | _ => return (first, rest)

/-- Commands that depend on whether those before them succeed. `before` is what stands before. -/
def chain? : (fuel : Nat) → (before : Command) → List Token → Option (Command × List Token)
  | 0, _, _ => none
  | fuel + 1, before, tokens =>
    match tokens with
    | .sign "&&" :: rest => do
      let (next, after) ← pipeline? fuel (dropBreaks rest)
      chain? fuel (.both before next) after
    | .sign "||" :: rest => do
      let (next, after) ← pipeline? fuel (dropBreaks rest)
      chain? fuel (.either before next) after
    | _ => some (before, tokens)

/-- Commands one after the other, up to something that ends them. -/
def listing? : (fuel : Nat) → List Token → Option (Command × List Token)
  | 0, _ => none
  | fuel + 1, tokens =>
    let start := dropBreaks tokens
    let ends : Bool := match reserved? start, start with
      | _, [] => true
      | _, .sign ")" :: _ => true
      | _, .sign ";;" :: _ => true
      | some name, _ => ["then", "elif", "else", "fi", "do", "done", "esac", "\x7d"].contains name
      | none, _ => false
    if ends then some (.nothing, start)
    else do
      let (first, rest) ← pipeline? fuel start
      let (chained, after) ← chain? fuel first rest
      match after with
      | .sign sign :: more =>
        if [";", "&", "\n"].contains sign then
          let (others, left) ← listing? fuel more
          return (.sequence chained others, left)
        else return (chained, after)
      | _ => return (chained, after)

end

/-- A whole script. -/
def parse? (script : String) : Option Command := do
  let cs := script.toList
  let tokens ← tokens? (cs.length + 1) 1 cs
  match ← listing? (8 * tokens.length + 8) tokens with
  | (command, []) => some command
  | _ => none

end Galley.Shell
