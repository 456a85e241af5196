import Galley.Diagram.Error
import Galley.Diagram.Id
import Galley.Files.Host
import Galley.Text.Blank

/-!
# The renderer of diagrams

A program that reads a diagram and writes its picture.

* `Renderer` — which program, and how it is called;
* `Renderer.invocation` — the call for a diagram;
* `endingText` — how a program ended, in words;
* `pictureOf` — what a call means for the diagram;
* `Renderer.typeset` — typesets a diagram.
-/

namespace Galley.Diagram

open Galley.Files (Ending Finished Host Invocation Outcome)

/-- Which program makes pictures, and how it is called. -/
structure Renderer where
  /-- The program. -/
  program : String
  /-- Arguments in front of those for the diagram. -/
  arguments : List String
  /-- How many milliseconds a call may take, if there is a limit. -/
  limit : Option Nat
  deriving Repr, DecidableEq

/-- The usual limit. -/
def usualLimit : Nat := 30000

/-- A program called in the usual way. -/
def Renderer.ofProgram (program : String) : Renderer := ⟨program, [], some usualLimit⟩

/-- The call for a diagram. -/
def Renderer.invocation (renderer : Renderer) (node : NamedDiagram) (theme : Theme) : Invocation :=
  { program := renderer.program,
    arguments := renderer.arguments ++
      ["--input", "-", "--output", "-", "--outputFormat", "svg", "--quiet", "--theme", theme.name,
        "--svgId", node.id ++ "-svg"],
    input := node.source.toUTF8,
    limit := renderer.limit }

/-- Signals and their names. -/
def signalNames : List (Nat × String) :=
  [(1, "SIGHUP"), (2, "SIGINT"), (3, "SIGQUIT"), (4, "SIGILL"), (5, "SIGTRAP"), (6, "SIGABRT"),
   (7, "SIGBUS"), (8, "SIGFPE"), (9, "SIGKILL"), (10, "SIGUSR1"), (11, "SIGSEGV"), (12, "SIGUSR2"),
   (13, "SIGPIPE"), (14, "SIGALRM"), (15, "SIGTERM"), (16, "SIGSTKFLT"), (17, "SIGCHLD"), (18, "SIGCONT"),
   (19, "SIGSTOP"), (20, "SIGTSTP"), (21, "SIGTTIN"), (22, "SIGTTOU"), (23, "SIGURG"), (24, "SIGXCPU"),
   (25, "SIGXFSZ"), (26, "SIGVTALRM"), (27, "SIGPROF"), (28, "SIGWINCH"), (29, "SIGIO"), (30, "SIGPWR"),
   (31, "SIGSYS")]

/-- How a program ended, in words. -/
def endingText : Ending → String
  | .code number => "exit status: " ++ toString number
  | .signal number =>
    "signal: " ++ toString number ++
      match signalNames.lookup number with
      | some name => " (" ++ name ++ ")"
      | none => ""

/-- Whether a text holds a picture. -/
def holdsPicture (text : String) : Bool := Text.contains "<svg".toList text.toList

/-- The picture in what a program left behind. What it wrote about errors tells why it failed. -/
def pictureOf (result : Finished) : Except PictureError String :=
  if result.ending == .code 0 then
    match Text.Utf8.decode? result.output with
    | none =>
      .error (.invalidOutput (((Text.Utf8.firstFault? result.output).map (·.message)).getD ""))
    | some text =>
      if holdsPicture text then .ok (.ofList (Text.trim text.toList))
      else .error (.invalidOutput "no <svg> element")
  else
    let message := Text.trim (Text.Utf8.decodeLossy result.errors)
    if message.isEmpty then
      .error (.rejected ("renderer exited with " ++ endingText result.ending))
    else .error (.rejected (.ofList message))

/-- What a call means for the diagram. -/
def Renderer.outcome (renderer : Renderer) : Except Files.FileError Outcome → Except PictureError String
  | .error error => .error (.launch renderer.program error.message)
  | .ok .late => .error (.timedOut (renderer.limit.getD 0 * nanosPerMilli))
  | .ok .unread => .error (.io Files.FileError.brokenPipe.message)
  | .ok (.finished result) => pictureOf result

/-- Typesets a diagram. -/
def Renderer.typeset {m : Type → Type} [Monad m] (renderer : Renderer) (host : Host m)
    (node : NamedDiagram) (theme : Theme) : m (Except PictureError String) := do
  return renderer.outcome (← host.run (renderer.invocation node theme))

end Galley.Diagram
