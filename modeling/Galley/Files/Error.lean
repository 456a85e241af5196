/-!
# What can go wrong with files

* `FileError` — the causes;
* `FileError.named`, `FileError.text` — how they are said in a few words;
* `FileError.message` — how they are said with their number.
-/

namespace Galley.Files

/-- Why something cannot be done with a file or a program. -/
inductive FileError where
  /-- There is no such thing. -/
  | notFound
  /-- It is not allowed. -/
  | permissionDenied
  /-- There is such a thing already. -/
  | exists
  /-- Part of the way there is no directory. -/
  | notDirectory
  /-- It is a directory. -/
  | isDirectory
  /-- A name is too long. -/
  | nameTooLong
  /-- The program is in no known form. -/
  | badProgram
  /-- Nobody reads what is written. -/
  | brokenPipe
  /-- A file holds no text. -/
  | notText
  /-- The name of a file holds a null character. -/
  | nullInName
  /-- An argument of a program holds a null character. -/
  | nullInArgument
  /-- Something else, in the words of the system. -/
  | system (text : String)
  deriving Repr, DecidableEq

/-- An error in a few words, and its number if it has one. -/
def FileError.named : FileError → String × Option Nat
  | notFound => ("No such file or directory", some 2)
  | permissionDenied => ("Permission denied", some 13)
  | .exists => ("File exists", some 17)
  | notDirectory => ("Not a directory", some 20)
  | isDirectory => ("Is a directory", some 21)
  | nameTooLong => ("File name too long", some 36)
  | badProgram => ("Exec format error", some 8)
  | brokenPipe => ("Broken pipe", some 32)
  | notText => ("stream did not contain valid UTF-8", none)
  | nullInName => ("file name contained an unexpected NUL byte", none)
  | nullInArgument => ("nul byte found in provided data", none)
  | system text => (text, none)

/-- An error in a few words. -/
def FileError.text (error : FileError) : String := error.named.1

/-- An error in words, with its number. -/
def FileError.message (error : FileError) : String :=
  match error.named with
  | (text, some number) => text ++ " (os error " ++ toString number ++ ")"
  | (text, none) => text

end Galley.Files
