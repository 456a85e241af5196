import Galley.Page
import Galley.Screen

/-!
# Sessions

A session shows a document while it is edited. Each edit is one pass; its page is shown at once, and its
diagrams are typeset in the background. A pass does not end the work of an earlier one, but what comes of
that work is dropped when it arrives.

* `Task` — one diagram to be typeset for a pass;
* `Call` — a task that has begun;
* `EditSession` — the session;
* `Pass` — what one edit brings about;
* `EditSession.edit` — one pass;
* `EditSession.begin?`, `EditSession.beginAll` — tasks begin;
* `EditSession.finish?` — a call has its outcome.
-/

namespace Galley

open Galley.Diagram (NamedDiagram PictureError Theme)

/-- One diagram to be typeset for a pass. -/
structure Task where
  /-- The pass. -/
  generation : Nat
  /-- The diagram as it stood on the screen at the time. -/
  node : NamedDiagram
  /-- The colours. -/
  theme : Theme
  deriving Repr, DecidableEq

/-- A task that has begun. -/
structure Call where
  /-- The task. -/
  task : Task
  /-- Whether its outcome has come. -/
  isAnswered : Bool
  deriving Repr, DecidableEq

/-- A session. -/
structure EditSession where
  /-- Makes pages of documents. -/
  maker : PageMaker
  /-- Whether diagrams are typeset. -/
  typesets : Bool
  /-- The number of the latest pass. -/
  generation : Nat
  /-- What is shown. -/
  screen : Screen
  /-- The tasks that have not begun, in their order. -/
  queue : List Task
  /-- The calls in the order in which they began. -/
  calls : List Call
  /-- How often the listener was called. -/
  notified : Nat

/-- What one edit brings about. -/
structure Pass where
  /-- The number of the pass. -/
  generation : Nat
  /-- The page that the pass gives. -/
  page : Page
  /-- The tasks of the pass. -/
  tasks : List Task
  deriving Repr, DecidableEq

namespace EditSession

/-- A session before its first edit. -/
def ofContext (context : PageContext) (typesets : Bool) : EditSession :=
  ⟨.ofContext context, typesets, 0, .empty, [], [], 0⟩

/-- How far the latest pass has come. -/
def progress (session : EditSession) : Progress :=
  if session.typesets && session.screen.awaitsPictures then .awaitingPictures else .idle

/-- The tasks for the diagrams that wait on a screen. -/
def tasksOf (screen : Screen) (theme : Theme) : List Task :=
  screen.awaitedDiagrams.map fun node => ⟨screen.generation, node, theme⟩

/-- One pass: its page is shown, the listener is called, and its diagrams wait to be typeset. -/
def edit (session : EditSession) (source : String) :
    Except Sanitizer.SanitizerError (Pass × EditSession) := do
  let generation := session.generation + 1
  let (page, maker) ← session.maker.make source
  let screen := Screen.ofMarkup generation page.html
  let theme := Theme.ofDarkMode maker.context.options.darkMode
  let tasks := if session.typesets then tasksOf screen theme else []
  return (⟨generation, page, tasks⟩,
    { session with
      maker, generation, screen,
      queue := session.queue ++ tasks,
      notified := session.notified + 1 })

/-- The task at a place of the queue begins. -/
def begin? (session : EditSession) (index : Nat) : Option EditSession := do
  let task ← session.queue[index]?
  return { session with
    queue := session.queue.eraseIdx index,
    calls := session.calls ++ [⟨task, false⟩] }

/-- All tasks begin, in their order. -/
def beginAll (session : EditSession) : EditSession :=
  { session with
    queue := [],
    calls := session.calls ++ session.queue.map fun task => ⟨task, false⟩ }

/-- A call has its outcome. It goes to the screen, and the listener is called if it is shown there. There
is no answer if there is no such call or it had its outcome before. -/
def finish? (session : EditSession) (index : Nat) (outcome : Except PictureError String) :
    Option EditSession := do
  let call ← session.calls[index]?
  if call.isAnswered then none
  else
    let (screen, settlement) :=
      session.screen.settle call.task.generation call.task.node.id outcome
    let calls := session.calls.set index { call with isAnswered := true }
    match settlement with
    | .applied => return { session with screen, calls, notified := session.notified + 1 }
    | .stale => return { session with screen, calls }

/-- All that is shown. -/
def markup (session : EditSession) : String := session.screen.markup

end EditSession

end Galley
