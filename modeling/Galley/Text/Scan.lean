/-!
# Scanning for matches

`scanAll` reads a text from left to right and collects what a reader finds: where it finds something,
the scan goes on after that; elsewhere it moves on by one character.
-/

namespace Galley.Text

/-- What a reader finds in a text, from left to right and without overlap. The reader gives what it
found and how many characters that takes. -/
def scanAll {α : Type} (read? : List Char → Option (α × Nat)) : List Char → List α
  | [] => []
  | c :: rest =>
    match read? (c :: rest) with
    | some (found, length) => found :: scanAll read? (rest.drop (length - 1))
    | none => scanAll read? rest
termination_by cs => cs.length
decreasing_by all_goals (simp only [List.length_cons, List.length_drop]; omega)

end Galley.Text
