import Galley.Shell.Run

/-!
# A machine in memory

A host whose files, variables and programs are all in memory. What is done on it can be followed step by
step, and it answers what a small system with a shell would.

* `Machine` — the machine;
* `Machine.launch` — runs a program on it;
* `Machine.host` — the machine as a host.
-/

namespace Galley

open Galley.Files (Ending Entry FileError Finished Host Invocation Outcome Tree)
open Galley.Shell (Session)

/-- A machine in memory. -/
structure Machine where
  /-- Its files. -/
  tree : Tree
  /-- The variables of its environment. -/
  environment : List (String × String)
  /-- What can be read from its standard input. -/
  input : ByteArray
  /-- What was written to its standard output. -/
  output : String
  /-- What was written to its standard output for errors. -/
  errors : String

namespace Machine

/-- A machine with an environment and nothing else. -/
def ofEnvironment (environment : List (String × String)) : Machine :=
  ⟨.empty, environment, .empty, "", ""⟩

/-- The directories in which programs are looked for. -/
def programDirectories : List String := ["/bin/", "/usr/bin/"]

/-- The name of a program that comes with the machine, if a path is that of one. -/
def builtIn? (program : String) : Option String :=
  let name := (programDirectories.findSome? fun directory =>
    (directory.toList.isPrefixOf? program.toList).map String.ofList).getD program
  if name == "sh" || Shell.toolNames.contains name then some name else none

/-- The shell in which a program runs. -/
def shell (machine : Machine) (name : String) (arguments : List String) (input : List UInt8) : Session :=
  ⟨name, arguments, machine.environment, 0, machine.tree, input, .output, .errors, .empty, .empty, 0, none,
    false⟩

/-- The shell after its own program with some arguments. -/
def runShell (machine : Machine) (arguments : List String) (input : List UInt8) : Session :=
  match arguments with
  | "-c" :: script :: name :: rest => Shell.runScript script (machine.shell name rest input)
  | ["-c", script] => Shell.runScript script (machine.shell "sh" [] input)
  | [] =>
    Shell.runScript (.ofList (Text.Utf8.decodeLossy (Shell.byteArray input))) (machine.shell "sh" [] [])
  | path :: rest =>
    let shell := machine.shell path rest input
    if path.toList.head? == some '-' then
      { machine.shell "sh" rest input with status := 2, errors := "sh: 0: Illegal option --\n".toUTF8 }
    else
      match machine.tree.read path with
      | .ok content => Shell.runScript (.ofList (Text.Utf8.decodeLossy content)) shell
      | .error _ =>
        { shell with status := 2, errors := ("sh: 0: cannot open " ++ path ++ ": No such file\n").toUTF8 }

/-- The shell after a program that comes with the machine. -/
def runBuiltIn (machine : Machine) (name : String) (arguments : List String) (input : List UInt8) : Session :=
  if name == "sh" then machine.runShell arguments input
  else Shell.invoke 2 1 (name :: arguments) (machine.shell name arguments input)

/-- The first lines of programs that are scripts. -/
def scriptStarts : List String :=
  ["#!/bin/sh", "#! /bin/sh", "#!/usr/bin/sh", "#!/usr/bin/env sh", "#!/bin/bash", "#!/usr/bin/env bash"]

/-- The shell after a program in a file. -/
def runFile (machine : Machine) (path : String) (arguments : List String) (input : List UInt8) :
    Except FileError Session := do
  match ← machine.tree.find path with
  | (_, .directory) => throw .permissionDenied
  | (_, .file content isExecutable) =>
    let text := Text.Utf8.decodeLossy content
    let first := String.ofList (text.takeWhile (· != '\n'))
    if !isExecutable then throw .permissionDenied
    else if "#!".toList.isPrefixOf text then
      if scriptStarts.any fun start => start.toList.isPrefixOf first.toList then
        return Shell.runScript (.ofList text) (machine.shell path arguments input)
      else throw .notFound
    else throw .badProgram

/-- How much can be written to a program that does not read. -/
def pipeSize : Nat := 65536

/-- What becomes of a program whose shell is given. -/
def outcome (limit : Option Nat) (shell : Session) : Outcome :=
  if limit.any (· ≤ shell.millis) then .late
  else if pipeSize < shell.input.length then .unread
  else .finished ⟨shell.result, shell.output, shell.errors⟩

/-- Runs a program. Gives what becomes of it, and the machine afterwards. -/
def launch (invocation : Invocation) (machine : Machine) : Except FileError (Outcome × Machine) := do
  let arguments := invocation.arguments
  if (invocation.program :: arguments).any fun text => text.toList.contains '\x00' then
    throw .nullInArgument
  let input := invocation.input.toList
  let shell ← match builtIn? invocation.program with
    | some name => pure (machine.runBuiltIn name arguments input)
    | none =>
      if invocation.program.toList.contains Files.separator then
        machine.runFile invocation.program arguments input
      else throw .notFound
  return (outcome invocation.limit shell, { machine with tree := shell.tree })

/-- Does something with the files. -/
def onTree (change : Tree → Except FileError Tree) : StateM Machine (Except FileError Unit) :=
  fun machine =>
    match change machine.tree with
    | .ok tree => (.ok (), { machine with tree })
    | .error error => (.error error, machine)

/-- The machine as a host. -/
def host : Host (StateM Machine) where
  environment name := do return (← get).environment.lookup name
  exists? path := do return (← get).tree.has path
  isDirectory path := do return (← get).tree.hasDirectory path
  read path := do return (← get).tree.read path
  write path content := onTree fun tree => tree.write path content
  makeDirectory path := onTree fun tree => tree.makeDirectory path
  input := do return (← get).input
  print text := modify fun machine => { machine with output := machine.output ++ text }
  printError text := modify fun machine => { machine with errors := machine.errors ++ text }
  run invocation := fun machine =>
    match launch invocation machine with
    | .ok (outcome, next) => (.ok outcome, next)
    | .error error => (.error error, machine)
  randomSeed := pure 0

end Machine

end Galley
