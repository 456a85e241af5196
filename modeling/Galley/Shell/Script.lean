/-!
# Scripts

A renderer may be a script. Here is what scripts are made of.

* `Part`, `Word` — words before they are expanded;
* `Redirection` — where a stream of a command goes;
* `Command` — commands.
-/

namespace Galley.Shell

/-- A part of a word. In quotes nothing is split at blanks. -/
inductive Part where
  /-- Text as it is. -/
  | text (text : String) (isQuoted : Bool)
  /-- The value of a parameter, and what stands for it if it is empty. -/
  | parameter (name : String) (fallback : Option String) (isQuoted : Bool)
  /-- The output of a script. -/
  | output (script : String) (isQuoted : Bool)
  deriving Repr, DecidableEq

/-- Whether a part is in quotes. -/
def Part.isQuoted : Part → Bool
  | .text _ inQuotes => inQuotes
  | .parameter _ _ inQuotes => inQuotes
  | .output _ inQuotes => inQuotes

/-- A part of a word as it is in quotes. -/
def Part.quoted : Part → Part
  | .text written _ => .text written true
  | .parameter name fallback _ => .parameter name fallback true
  | .output script _ => .output script true

/-- A word before it is expanded. -/
abbrev Word := List Part

/-- Where a stream goes. -/
inductive Target where
  /-- Into a file, from its start. -/
  | file (path : Word)
  /-- To the end of a file. -/
  | append (path : Word)
  /-- It comes out of a file. -/
  | source (path : Word)
  /-- Where another stream goes. -/
  | stream (number : Nat)
  /-- Nowhere. -/
  | closed
  deriving Repr, DecidableEq

/-- Where a stream of a command goes. -/
structure Redirection where
  /-- The number of the stream. -/
  stream : Nat
  /-- Where it goes. -/
  target : Target
  deriving Repr, DecidableEq

/-- A command. -/
inductive Command where
  /-- Nothing at all. -/
  | nothing
  /-- Variables that are set, and a command with its arguments, on a line. -/
  | simple (line : Nat) (settings : List (String × Word)) (words : List Word)
      (redirections : List Redirection)
  /-- One after the other. -/
  | sequence (first second : Command)
  /-- The second if the first succeeds. -/
  | both (first second : Command)
  /-- The second if the first fails. -/
  | either (first second : Command)
  /-- What the first writes the second reads. -/
  | pipe (first second : Command)
  /-- Succeeds if the command fails. -/
  | negate (command : Command)
  /-- One of two commands. -/
  | choose (condition yes no : Command)
  /-- One of two commands: the first if a word is like one of some patterns. -/
  | compare (subject : Word) (patterns : List Word) (yes no : Command)
  /-- A command again and again, as long as a condition succeeds, or until it does. -/
  | repeated (isUntil : Bool) (condition body : Command)
  /-- A command for each of some words. -/
  | forEach (name : String) (words : List Word) (body : Command)
  /-- A command with its streams. What it sets is forgotten afterwards if it is enclosed. -/
  | group (isEnclosed : Bool) (body : Command) (redirections : List Redirection)
  deriving Repr

end Galley.Shell
