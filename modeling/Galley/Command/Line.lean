import Galley.Files.Path

/-!
# The command line

* `RenderArguments`, `WatchArguments`, `Request` — what can be asked for;
* `parse?` — reads the arguments of the program.
-/

namespace Galley.Command

/-- What rendering is asked for. -/
structure RenderArguments where
  /-- The document: a path, or a hyphen for the standard input. Without it the latest one. -/
  input : Option String
  /-- The file for the page. -/
  output : Option String
  /-- The directory for the page. -/
  directory : Option String
  /-- Whether words, characters and lines are counted. -/
  countsWords : Bool
  /-- Whether diagrams stay as they are. -/
  skipsDiagrams : Bool
  deriving Repr, DecidableEq

/-- What watching is asked for. -/
structure WatchArguments where
  /-- The document. -/
  input : String
  /-- The file for the page. -/
  output : String
  /-- How many milliseconds pass between two looks at the document. -/
  interval : Nat
  /-- Whether diagrams stay as they are. -/
  skipsDiagrams : Bool
  deriving Repr, DecidableEq

/-- What the program is asked to do. -/
inductive Action where
  /-- Render a document once. -/
  | render (arguments : RenderArguments)
  /-- Render a document whenever it changes. -/
  | watch (arguments : WatchArguments)
  deriving Repr, DecidableEq

/-- What the arguments of the program ask for. -/
inductive Request where
  /-- Its version. -/
  | version
  /-- How it is used. -/
  | help
  /-- Something to do, with the configuration in some file. -/
  | act (config : Option String) (action : Action)
  deriving Repr, DecidableEq

/-- An option that can be given. -/
inductive OptionName where
  /-- Which configuration. -/
  | config
  /-- The file for the page. -/
  | output
  /-- The directory for the page. -/
  | directory
  /-- How long to wait. -/
  | interval
  /-- Count words. -/
  | stats
  /-- Leave diagrams. -/
  | noDiagrams
  /-- The version. -/
  | version
  /-- How the program is used. -/
  | help
  deriving Repr, DecidableEq

/-- Whether an option has a value. -/
def OptionName.takesValue : OptionName → Bool
  | config => true
  | output => true
  | directory => true
  | interval => true
  | _ => false

/-- The names of options behind two hyphens and behind one, and the options. -/
abbrev OptionNames := List (String × OptionName)

/-- The options in front of the command. -/
def globalNames : OptionNames :=
  [("--config", .config), ("--version", .version), ("-V", .version), ("--help", .help), ("-h", .help)]

/-- The options of rendering. -/
def renderNames : OptionNames :=
  [("--config", .config), ("--output", .output), ("-o", .output), ("--out-dir", .directory),
   ("--stats", .stats), ("--no-diagrams", .noDiagrams), ("--help", .help), ("-h", .help)]

/-- The options of watching. -/
def watchNames : OptionNames :=
  [("--config", .config), ("--output", .output), ("-o", .output), ("--interval-ms", .interval),
   ("--no-diagrams", .noDiagrams), ("--help", .help), ("-h", .help)]

/-- An argument. -/
inductive Argument where
  /-- An option with its value, if it has one. -/
  | option (name : OptionName) (value : String)
  /-- Anything else. -/
  | plain (text : String)
  deriving Repr, DecidableEq

/-- Whether an argument looks like an option. A lone hyphen does not. -/
def looksLikeOption (text : String) : Bool :=
  text.toList.head? == some '-' && text != "-"

/-- An option in one argument, as it is written: its name, and what follows in the same argument. An equals
sign between them does not count. -/
def splitOption (names : OptionNames) (text : String) : Option (OptionName × Option String) :=
  let cs := text.toList
  if "--".toList.isPrefixOf cs then
    let name := cs.takeWhile (· != '=')
    let rest := cs.drop name.length
    (names.lookup (.ofList name)).map fun option =>
      (option, if rest.isEmpty then none else some (.ofList (rest.drop 1)))
  else
    (names.lookup (.ofList (cs.take 2))).map fun option =>
      match cs.drop 2 with
      | [] => (option, none)
      | '=' :: value => (option, some (.ofList value))
      | value => (option, some (.ofList value))

/-- Reads one argument, which may take the next one as its value. Gives what follows. -/
def readArgument? (names : OptionNames) (text : String) (rest : List String) :
    Option (Argument × List String) :=
  if looksLikeOption text then do
    let (name, value) ← splitOption names text
    if name.takesValue then
      match value, rest with
      | some value, _ => if value.isEmpty then none else return (.option name value, rest)
      | none, next :: after =>
        if looksLikeOption next || next.isEmpty then none else return (.option name next, after)
      | none, [] => none
    else if value.isSome then none
    else return (.option name "", rest)
  else if text.isEmpty then none
  else return (.plain text, rest)

/-- Reads all arguments of a command, until help is asked for. Behind two hyphens nothing is an option.
`fuel` bounds how many there are. -/
def readArguments? (names : OptionNames) : (fuel : Nat) → List String → Option (List Argument)
  | 0, _ => some []
  | _, [] => some []
  | fuel + 1, text :: rest =>
    if text == "--" then
      if rest.any String.isEmpty then none else some (rest.map .plain)
    else do
      let (argument, after) ← readArgument? names text rest
      if argument == .option .help "" then return [argument]
      else return argument :: (← readArguments? names fuel after)

/-- The values of an option. -/
def valuesOf (name : OptionName) (arguments : List Argument) : List String :=
  arguments.filterMap fun argument =>
    match argument with
    | .option other value => if other == name then some value else none
    | .plain _ => none

/-- What is not an option. -/
def plainOf (arguments : List Argument) : List String :=
  arguments.filterMap fun argument =>
    match argument with
    | .plain text => some text
    | .option _ _ => none

/-- Whether every option is given once at most. -/
def givesOnce (arguments : List Argument) : Bool :=
  let names := arguments.filterMap fun argument =>
    match argument with
    | .option name _ => some name
    | .plain _ => none
  names.eraseDups.length == names.length

/-- A number without sign that fits into 64 bits. -/
def wholeNumber? (text : String) : Option Nat :=
  let digits := match text.toList with
    | '+' :: rest => rest
    | cs => cs
  if digits.isEmpty || !digits.all Char.isDigit then none
  else
    let n := digits.foldl (fun (n : Nat) c => 10 * n + (c.toNat - 48)) 0
    if n < UInt64.size then some n else none

/-- What rendering is asked for, if the arguments fit. -/
def renderAction? (arguments : List Argument) : Option Action := do
  let output := (valuesOf .output arguments).head?
  let directory := (valuesOf .directory arguments).head?
  if output.isSome && directory.isSome then none
  else
    let make (input : Option String) : Action := .render
      { input, output, directory,
        countsWords := !(valuesOf .stats arguments).isEmpty,
        skipsDiagrams := !(valuesOf .noDiagrams arguments).isEmpty }
    match plainOf arguments with
    | [] => some (make none)
    | [input] => some (make (some input))
    | _ => none

/-- How long watching waits if nothing else is asked for. -/
def usualInterval : Nat := 500

/-- What watching is asked for, if the arguments fit. -/
def watchAction? (arguments : List Argument) : Option Action := do
  let output ← (valuesOf .output arguments).head?
  let interval ← match valuesOf .interval arguments with
    | [] => some usualInterval
    | text :: _ => wholeNumber? text
  let skipsDiagrams := !(valuesOf .noDiagrams arguments).isEmpty
  match plainOf arguments with
  | [input] => some (.watch ⟨input, output, interval, skipsDiagrams⟩)
  | _ => none

/-- What the arguments behind a command ask for. `config` is the configuration named in front of it. -/
def readCommand? (names : OptionNames) (action? : List Argument → Option Action) (config : Option String)
    (rest : List String) : Option Request := do
  let arguments ← readArguments? names rest.length rest
  if arguments.contains (.option .help "") then return .help
  else if givesOnce arguments then
    return .act ((valuesOf .config arguments).head?.or config) (← action? arguments)
  else none

/-- What the arguments of the program ask for, if they fit. `config` is the configuration named so far, and
`fuel` bounds how many arguments there are. -/
def readRequest? : (fuel : Nat) → (config : Option String) → List String → Option Request
  | 0, _, _ => none
  | _, _, [] => none
  | fuel + 1, config, text :: rest =>
    if text == "render" then readCommand? renderNames renderAction? config rest
    else if text == "watch" then readCommand? watchNames watchAction? config rest
    else if text == "help" then some .help
    else do
      match ← readArgument? globalNames text rest with
      | (.option .version _, _) => return .version
      | (.option .help _, _) => return .help
      | (.option .config value, after) =>
        if config.isSome then none else readRequest? fuel (some value) after
      | _ => none

/-- What the arguments of the program ask for, if they fit. -/
def parse? (arguments : List String) : Option Request :=
  readRequest? (arguments.length + 1) none arguments

end Galley.Command
