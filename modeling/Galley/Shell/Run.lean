import Galley.Shell.Reader
import Galley.Shell.Tool

/-!
# Running scripts

* `Sink`, `Session` — the state of a shell;
* `splitWords`, `expandWord` — words as they are when a command begins;
* `run` — runs a command;
* `runScript` — runs a script.
-/

namespace Galley.Shell

open Galley.Files (Ending Tree)

/-- Where what is written goes. -/
inductive Sink where
  /-- To the output. -/
  | output
  /-- To the output for errors. -/
  | errors
  /-- Into a file. -/
  | file (path : String)
  /-- Nowhere. -/
  | discard
  deriving Repr, DecidableEq

/-- The state of a shell. -/
structure Session where
  /-- What the script is called. -/
  name : String
  /-- The arguments of the script. -/
  arguments : List String
  /-- The variables. -/
  settings : List (String × String)
  /-- The status of the latest command. -/
  status : Nat
  /-- The files. -/
  tree : Tree
  /-- What can be read. -/
  input : List UInt8
  /-- Where output goes. -/
  outputSink : Sink
  /-- Where errors go. -/
  errorSink : Sink
  /-- What was written. -/
  output : ByteArray
  /-- What was written about errors. -/
  errors : ByteArray
  /-- How many milliseconds have passed. -/
  millis : Nat
  /-- How the script ended, if it did. -/
  ending : Option Ending
  /-- Whether the script ends with the first command that fails and is not a condition. -/
  endsOnFailure : Bool

/-- The number that stands for the shell itself. -/
def ownNumber : String := "4711"

namespace Session

/-- Writes bytes into a sink. -/
def write (shell : Session) (sink : Sink) (bytes : ByteArray) : Session :=
  match sink with
  | .output => { shell with output := shell.output ++ bytes }
  | .errors => { shell with errors := shell.errors ++ bytes }
  | .discard => shell
  | .file path =>
    match (shell.tree.read path).bind fun old => shell.tree.write path (old ++ bytes) with
    | .ok tree => { shell with tree }
    | .error _ => shell

/-- Writes a message about an error on a line of the script. -/
def complain (shell : Session) (line : Nat) (text : String) : Session :=
  shell.write shell.errorSink (shell.name ++ ": " ++ toString line ++ ": " ++ text ++ "\n").toUTF8

/-- The value of a parameter. -/
def parameter (shell : Session) (name : String) : String :=
  match name with
  | "0" => shell.name
  | "#" => toString shell.arguments.length
  | "?" => toString shell.status
  | "$" => ownNumber
  | "*" => String.intercalate " " shell.arguments
  | "@" => String.intercalate " " shell.arguments
  | _ =>
    match name.toNat? with
    | some index => (shell.arguments[index - 1]?).getD ""
    | none => (shell.settings.lookup name).getD ""

/-- Sets a variable. -/
def setVariable (shell : Session) (name value : String) : Session :=
  { shell with settings := (name, value) :: shell.settings.filter (·.1 != name) }

end Session

/-! ## Words -/

/-- A piece of an expanded word. -/
inductive Piece where
  /-- A character. -/
  | char (c : Char)
  /-- A blank at which the word is split. -/
  | blank
  /-- Nothing, but the word is there even if it is empty. -/
  | quotes
  deriving Repr, DecidableEq

/-- The words that some pieces make. `word` is the one that is being read, its last character first, if
there is one. -/
def splitWords (word : Option (List Char)) : List Piece → List String
  | [] => (word.map fun cs => String.ofList cs.reverse).toList
  | .char c :: rest => splitWords (some (c :: word.getD [])) rest
  | .quotes :: rest => splitWords (some (word.getD [])) rest
  | .blank :: rest => (word.map fun cs => String.ofList cs.reverse).toList ++ splitWords none rest

/-- The pieces of a text. Without quotes it is split at blanks if it is a value. -/
def textPieces (isQuoted splits : Bool) (cs : List Char) : List Piece :=
  let pieces := cs.map fun c =>
    if splits && !isQuoted && (c == ' ' || c == '\t' || c == '\n') then Piece.blank else .char c
  if isQuoted then .quotes :: pieces else pieces

/-- All arguments, each a word of its own. -/
def argumentPieces (arguments : List String) : List Piece :=
  (arguments.map fun argument => Piece.quotes :: argument.toList.map .char).intersperse [.blank] |>.flatten

/-- A text without the line feeds at its end. -/
def dropLastBreaks (cs : List Char) : List Char := (cs.reverse.dropWhile (· == '\n')).reverse

/-! ## Streams -/

/-- The sink that a path names. -/
def sinkOf (path : String) : Sink :=
  if path == "/dev/null" then .discard
  else if path == "/dev/stdout" then .output
  else if path == "/dev/stderr" then .errors
  else .file path

/-- The shell with a stream that goes somewhere. -/
def setSink (shell : Session) (stream : Nat) (sink : Sink) : Session :=
  if stream == 2 then { shell with errorSink := sink }
  else if stream == 1 then { shell with outputSink := sink }
  else shell

/-- The shell with a stream that goes into a file, which is made or, from its start, replaced. -/
def openFile (shell : Session) (stream : Nat) (path : String) (appends : Bool) : Except String Session :=
  match sinkOf path with
  | .file path =>
    if appends && shell.tree.has path && !shell.tree.hasDirectory path then
      .ok (setSink shell stream (.file path))
    else
      match shell.tree.write path .empty with
      | .ok tree => .ok (setSink { shell with tree } stream (.file path))
      | .error error =>
        let reason := if error == .notFound then "Directory nonexistent" else error.text
        .error ("cannot create " ++ path ++ ": " ++ reason)
  | sink => .ok (setSink shell stream sink)

/-- The shell that reads from a file. -/
def openSource (shell : Session) (path : String) : Except String Session :=
  if path == "/dev/null" then .ok { shell with input := [] }
  else
    match shell.tree.read path with
    | .ok content => .ok { shell with input := content.toList }
    | .error error =>
      let reason := if error == .notFound then "No such file" else error.text
      .error ("cannot open " ++ path ++ ": " ++ reason)

/-- The shell as it was before with what a command changed: its streams are as before. -/
def restoreStreams (before after : Session) (keepsInput : Bool) : Session :=
  { after with
    outputSink := before.outputSink
    errorSink := before.errorSink
    input := if keepsInput then before.input else after.input }

/-- The numbers of signals by their names. -/
def signalNumbers : List (String × Nat) :=
  [("HUP", 1), ("INT", 2), ("QUIT", 3), ("ABRT", 6), ("KILL", 9), ("USR1", 10), ("SEGV", 11), ("USR2", 12),
   ("PIPE", 13), ("ALRM", 14), ("TERM", 15)]

/-- The signal that some arguments name, and whether they name the shell. -/
def killed? (arguments : List String) : Option Nat :=
  let signal (name : String) : Nat :=
    let bare := if "SIG".toList.isPrefixOf name.toList then String.ofList (name.toList.drop 3) else name
    name.toNat?.getD ((signalNumbers.lookup bare).getD 15)
  match arguments with
  | ["-s", name, number] => if number == ownNumber then some (signal name) else none
  | [option, number] =>
    if number == ownNumber then some (signal (String.ofList (option.toList.drop 1))) else none
  | [number] => if number == ownNumber then some 15 else none
  | _ => none

/-- The commands that the shell knows itself. -/
def ownCommands : List String :=
  ["exit", "return", "exec", "sh", "shift", "set", "eval", "export", "trap", "read", "kill", ":"]

/-- Whether there is a command with a name. -/
def isCommandName (name : String) : Bool := ownCommands.contains name || toolNames.contains name

/-- More milliseconds than any limit. -/
def forever : Nat := 1000000000000

mutual

/-- The pieces of a word. Scripts in it are run. -/
def expandPieces : (fuel : Nat) → Word → Session → List Piece × Session
  | 0, _, shell => ([], shell)
  | _, [], shell => ([], shell)
  | fuel + 1, part :: rest, shell =>
    let (pieces, shell) : List Piece × Session :=
      match part with
      | .text text isQuoted => (textPieces isQuoted false text.toList, shell)
      | .parameter name fallback isQuoted =>
        if name == "@" && isQuoted then (argumentPieces shell.arguments, shell)
        else
          let value := shell.parameter name
          let value := if value.isEmpty then fallback.getD "" else value
          (textPieces isQuoted true value.toList, shell)
      | .output script isQuoted =>
        let (bytes, shell) := capture fuel ((parse? script).getD .nothing) shell
        (textPieces isQuoted true (dropLastBreaks (Text.Utf8.decodeLossy bytes)), shell)
    let (more, shell) := expandPieces fuel rest shell
    (pieces ++ more, shell)

/-- The words that a word becomes. -/
def expandWord : (fuel : Nat) → Word → Session → List String × Session
  | 0, _, shell => ([], shell)
  | fuel + 1, word, shell =>
    let (pieces, shell) := expandPieces fuel word shell
    (splitWords none pieces, shell)

/-- The characters of a pattern. Those in quotes stand for themselves. -/
def expandPattern : (fuel : Nat) → Word → Session → List Char
  | 0, _, _ => []
  | _, [], _ => []
  | fuel + 1, part :: rest, shell =>
    let (pieces, next) := expandPieces fuel [part] shell
    let cs := pieces.filterMap fun piece =>
      match piece with
      | .char c => some c
      | .blank => some ' '
      | .quotes => none
    let written := if part.isQuoted then cs.flatMap fun c => ['\\', c] else cs
    written ++ expandPattern fuel rest next

/-- The words that some words become. -/
def expandWords : (fuel : Nat) → List Word → Session → List String × Session
  | 0, _, shell => ([], shell)
  | _, [], shell => ([], shell)
  | fuel + 1, word :: rest, shell =>
    let (first, shell) := expandWord fuel word shell
    let (others, shell) := expandWords fuel rest shell
    (first ++ others, shell)

/-- What a command writes. It runs in a shell of its own. -/
def capture : (fuel : Nat) → Command → Session → ByteArray × Session
  | 0, _, shell => (.empty, shell)
  | fuel + 1, command, shell =>
    let inner := enclosed fuel command { shell with outputSink := .output, output := .empty }
    (inner.output, { inner with outputSink := shell.outputSink, output := shell.output })

/-- Runs a command in a shell of its own. What it sets is forgotten, and its end is not that of the
script, but a signal ends both. -/
def enclosed : (fuel : Nat) → Command → Session → Session
  | 0, _, shell => shell
  | fuel + 1, command, shell =>
    let inner := run fuel command shell
    let kept := { inner with name := shell.name, arguments := shell.arguments, settings := shell.settings }
    match inner.ending with
    | some (.code number) => { kept with status := number, ending := shell.ending }
    | _ => kept

/-- The shell with the streams of a command, and whether its input was replaced, or why there is none. -/
def redirect : (fuel : Nat) → List Redirection → Session → Bool → Except String (Session × Bool)
  | 0, _, _, _ => .error "too many redirections"
  | _, [], shell, replaced => .ok (shell, replaced)
  | fuel + 1, redirection :: rest, shell, replaced =>
    let path (word : Word) : String × Session :=
      let (words, shell) := expandWord fuel word shell
      (String.intercalate " " words, shell)
    match redirection.target with
    | .file word =>
      let (path, shell) := path word
      (openFile shell redirection.stream path false).bind fun shell =>
        redirect fuel rest shell replaced
    | .append word =>
      let (path, shell) := path word
      (openFile shell redirection.stream path true).bind fun shell =>
        redirect fuel rest shell replaced
    | .source word =>
      let (path, shell) := path word
      (openSource shell path).bind fun shell => redirect fuel rest shell true
    | .stream number =>
      let sink := if number == 2 then shell.errorSink else shell.outputSink
      redirect fuel rest (setSink shell redirection.stream sink) replaced
    | .closed =>
      if redirection.stream == 0 then redirect fuel rest { shell with input := [] } true
      else redirect fuel rest (setSink shell redirection.stream .discard) replaced

/-- Runs a command whose words are known. -/
def invoke : (fuel line : Nat) → List String → Session → Session
  | 0, _, _, shell => shell
  | _, _, [], shell => { shell with status := 0 }
  | fuel + 1, line, name :: arguments, shell =>
    match name with
    | "exit" | "return" =>
      let number := ((arguments.head?.bind String.toNat?).getD shell.status) % 256
      { shell with status := number, ending := some (.code number) }
    | "exec" =>
      let missing := arguments.head?.filter fun program => !isCommandName program
      let after := match missing with
        | some program =>
          { shell.complain line ("exec: " ++ program ++ ": not found") with status := 127 }
        | none => invoke fuel line arguments shell
      if arguments.isEmpty || after.ending.isSome then after
      else { after with ending := some (.code after.status) }
    | "sh" =>
      match arguments with
      | "-c" :: script :: rest =>
        let inner := { shell with name := rest.head?.getD "sh", arguments := rest.drop 1 }
        let after := run fuel (.group true ((parse? script).getD .nothing) []) inner
        { after with
          name := shell.name, arguments := shell.arguments, settings := shell.settings }
      | _ => { shell with status := 0 }
    | "shift" =>
      let count := (arguments.head?.bind String.toNat?).getD 1
      { shell with arguments := shell.arguments.drop count, status := 0 }
    | "set" =>
      match arguments with
      | "--" :: rest => { shell with arguments := rest, status := 0 }
      | option :: _ =>
        let isOn := option.toList.head? == some '-'
        let endsOnFailure := if option.toList.contains 'e' then isOn else shell.endsOnFailure
        { shell with status := 0, endsOnFailure }
      | [] => { shell with status := 0 }
    | "eval" => run fuel ((parse? (String.intercalate " " arguments)).getD .nothing) shell
    | "export" =>
      arguments.foldl (fun shell argument =>
        let name := argument.toList.takeWhile (· != '=')
        if name.length < argument.length then
          shell.setVariable (.ofList name) (.ofList (argument.toList.drop (name.length + 1)))
        else shell) { shell with status := 0 }
    | "trap" => { shell with status := 0 }
    | "read" =>
      let line := shell.input.takeWhile (· != 10)
      let rest := shell.input.drop line.length
      let text := String.ofList (Text.trim (byteChars line))
      let next := match arguments.getLast? with
        | some name => shell.setVariable name text
        | none => shell
      { next with input := rest.drop 1, status := if rest.isEmpty then 1 else 0 }
    | "kill" =>
      match killed? arguments with
      | some 0 => { shell with status := 0 }
      | some number => { shell with ending := some (.signal number) }
      | none => { shell with status := 1 }
    | _ =>
      match runTool? shell.tree shell.input name arguments with
      | some answer =>
        let written := (shell.write shell.outputSink answer.output).write shell.errorSink
          answer.errors.toUTF8
        { written with
          input := answer.input, status := answer.status, millis := shell.millis + answer.millis }
      | none => { shell.complain line (name ++ ": not found") with status := 127 }

/-- Runs a command whose success is a condition for others. -/
def runTested : (fuel : Nat) → Command → Session → Session
  | 0, _, shell => shell
  | fuel + 1, command, shell =>
    let next := run fuel command { shell with endsOnFailure := false }
    { next with endsOnFailure := shell.endsOnFailure }

/-- Runs a command. After the end of the script nothing is run. One that takes too many steps takes
forever. -/
def run : (fuel : Nat) → Command → Session → Session
  | 0, _, shell => { shell with millis := shell.millis + forever }
  | fuel + 1, command, shell =>
    if shell.ending.isSome then shell
    else
      match command with
      | .nothing => shell
      | .simple line settings words redirections =>
        let (words, shell) := expandWords fuel words shell
        let shell := settings.foldl (fun shell (name, word) =>
          let (value, shell) := expandWord fuel (word.map Part.quoted) shell
          shell.setVariable name (String.intercalate " " value)) shell
        match redirect fuel redirections shell false with
        | .error reason => { shell.complain line reason with status := 2 }
        | .ok (inner, replaced) =>
          let after := invoke fuel line words inner
          let after := if words == ["exec"] then after else restoreStreams shell after replaced
          if after.endsOnFailure && after.status != 0 && after.ending.isNone then
            { after with ending := some (.code after.status) }
          else after
      | .sequence first second => run fuel second (run fuel first shell)
      | .both first second =>
        let next := runTested fuel first shell
        if next.status == 0 then run fuel second next else next
      | .either first second =>
        let next := runTested fuel first shell
        if next.status == 0 then next else run fuel second next
      | .pipe first second =>
        let (bytes, next) := capture fuel first shell
        let after := enclosed fuel second { next with input := bytes.toList }
        { after with input := next.input }
      | .negate inner =>
        let next := runTested fuel inner shell
        { next with status := if next.status == 0 then 1 else 0 }
      | .choose condition yes no =>
        let next := runTested fuel condition shell
        if next.status == 0 then run fuel yes next else run fuel no { next with status := 0 }
      | .compare subject patterns yes no =>
        let (value, next) := expandWord fuel (subject.map Part.quoted) shell
        let text := (String.intercalate " " value).toList
        let isLike (pattern : Word) : Bool :=
          (Pattern.ofWord (expandPattern fuel pattern next)).matches text
        if patterns.any isLike then run fuel yes { next with status := 0 }
        else run fuel no { next with status := 0 }
      | .repeated isUntil condition body =>
        let next := runTested fuel condition shell
        if (next.status == 0) != isUntil then
          run fuel (.repeated isUntil condition body) (run fuel body next)
        else { next with status := 0 }
      | .forEach name words body =>
        let (values, next) := expandWords fuel words shell
        values.foldl (fun shell value => run fuel body (shell.setVariable name value)) next
      | .group isEnclosed body redirections =>
        match redirect fuel redirections shell false with
        | .error reason => { shell.complain 1 reason with status := 2 }
        | .ok (inner, replaced) =>
          let after := if isEnclosed then enclosed fuel body inner else run fuel body inner
          restoreStreams shell after replaced

end

/-- The most steps that a script takes. -/
def maxSteps : Nat := 20000

/-- Runs a script to its end. -/
def runScript (script : String) (shell : Session) : Session :=
  match parse? script with
  | some command => run maxSteps command shell
  | none =>
    let cs := script.toList
    let reason := if (tokens? (cs.length + 1) 1 cs).isNone then ": Unterminated quoted string" else ""
    { shell.complain 1 ("Syntax error" ++ reason) with status := 2 }

/-- How a script ended. -/
def Session.result (shell : Session) : Ending := shell.ending.getD (.code shell.status)

end Galley.Shell
