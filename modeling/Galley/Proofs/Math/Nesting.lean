import Galley.Math.Check
import Mathlib

/-!
# Nested marks

Marks nest when each opening mark has its partner behind it, and what stands between the two nests as well. The checks on
formulas walk along such marks with a counter or with a stack. Here it is said without either what they accept, and which
mark they object to.

* `Nests` — the words of nested marks, and `Leaves` — the words that leave some marks open;
* `braceDepth?_eq` — braces are counted as sized delimiters are, once those are left out that a backslash takes along;
* `sizedDepth?_eq_zero_iff` — the counter accepts the words that nest;
* `EndFault` — what can be wrong with the ends of environments;
* `openEnvironments_eq_ok_iff`, `openEnvironments_eq_error_iff` — the stack holds what is open, and finds what is wrong.
-/

namespace Galley.Math

variable {α : Type} {pairs : α → α → Prop} {word inner rest : List α} {opened : List α} {mark : α}

/-- Words of nested marks. `pairs` says which opening mark goes with which closing one. -/
inductive Nests (pairs : α → α → Prop) : List α → Prop where
  | nil : Nests pairs []
  | wrap {first last : α} {inner rest : List α} (partners : pairs first last) (within : Nests pairs inner)
      (behind : Nests pairs rest) : Nests pairs (first :: (inner ++ last :: rest))

/-- Words in which some opening marks have no partner, the innermost of them first: between these marks the words nest. -/
inductive Leaves (pairs : α → α → Prop) : List α → List α → Prop where
  | whole {word : List α} (nests : Nests pairs word) : Leaves pairs word []
  | opened {word inner opened : List α} {mark : α} (before : Leaves pairs word opened) (opens : ∃ last, pairs mark last)
      (nests : Nests pairs inner) : Leaves pairs (word ++ mark :: inner) (mark :: opened)

theorem Nests.append (nests : Nests pairs word) (more : Nests pairs rest) : Nests pairs (word ++ rest) := by
  induction nests with
  | nil => exact more
  | wrap partners within _ _ ih =>
    rw [List.cons_append, List.append_assoc, List.cons_append]
    exact .wrap partners within ih

theorem Leaves.append (leaves : Leaves pairs word opened) (more : Nests pairs rest) : Leaves pairs (word ++ rest) opened := by
  cases leaves with
  | whole nests => exact .whole (nests.append more)
  | opened before opens nests =>
    rw [List.append_assoc, List.cons_append]
    exact .opened before opens (nests.append more)

/-- An opening mark is left open. -/
theorem Leaves.push (leaves : Leaves pairs word opened) (opens : ∃ last, pairs mark last) :
    Leaves pairs (word ++ [mark]) (mark :: opened) :=
  .opened leaves opens .nil

/-- A closing mark is the partner of the innermost one that is open. -/
theorem Leaves.pop {first last : α} (leaves : Leaves pairs word (first :: opened)) (partners : pairs first last) :
    Leaves pairs (word ++ [last]) opened := by
  cases leaves with
  | opened before _ nests =>
    rw [List.append_assoc, List.cons_append]
    exact before.append (.wrap partners nests .nil)

theorem leaves_nil_iff : Leaves pairs word [] ↔ Nests pairs word :=
  ⟨fun (.whole nests) => nests, .whole⟩

/-! ## A counter -/

/-- An opening bracket goes with a closing one. -/
def BracketPair (first last : Bool) : Prop := first = true ∧ last = false

/-- A nested word does not change the count. -/
theorem sizedDepth?_nests {word : List Bool} (nests : Nests BracketPair word) (depth : Nat) (rest : List Bool) :
    sizedDepth? depth (word ++ rest) = sizedDepth? depth rest := by
  induction nests generalizing depth rest with
  | nil => rfl
  | wrap partners _ _ within behind =>
    obtain ⟨rfl, rfl⟩ := partners
    rw [List.cons_append, sizedDepth?, List.append_assoc, within, List.cons_append, sizedDepth?, behind]

/-- What the counter counts are the brackets left open. -/
theorem leaves_of_sizedDepth? {read opened : List Bool} (leaves : Leaves BracketPair read opened) {rest : List Bool}
    (counted : sizedDepth? opened.length rest = some 0) : Nests BracketPair (read ++ rest) := by
  -- Induction on what is still to be read, while the marks that are open account for the count.
  induction rest generalizing read opened with
  | nil =>
    obtain rfl : opened = [] := List.length_eq_zero_iff.mp (Option.some.inj counted)
    rwa [List.append_nil, ← leaves_nil_iff]
  | cons bracket rest ih =>
    rw [List.append_cons]
    cases bracket with
    | true => exact ih (leaves.push ⟨false, rfl, rfl⟩) counted
    | false =>
      cases opened with
      | nil => cases counted
      | cons first opened =>
        refine ih (leaves.pop ⟨?_, rfl⟩) counted
        cases leaves with
        | opened _ opens _ => exact opens.choose_spec.1

/-- The counter comes back to zero, and never goes below, on the words that nest. -/
theorem sizedDepth?_eq_zero_iff {word : List Bool} : sizedDepth? 0 word = some 0 ↔ Nests BracketPair word := by
  refine ⟨leaves_of_sizedDepth? (.whole .nil), fun nests => ?_⟩
  rw [← List.append_nil word, sizedDepth?_nests nests, sizedDepth?]

/-! ## Braces -/

/-- Whether a character takes the next one along: a backslash that is not taken along itself. -/
def takes (taken : Bool) (c : Char) : Bool := !taken && c == '\\'

/-- The characters of a text that no backslash takes along. `taken` says whether the first one is. -/
def untakenChars : Bool → List Char → List Char
  | _, [] => []
  | taken, c :: rest => (if taken then [] else [c]) ++ untakenChars (takes taken c) rest

/-- A brace as a bracket. -/
def brace? (c : Char) : Option Bool :=
  if c = '\x7b' then some true else if c = '\x7d' then some false else none

/-- The braces of a text. -/
def braces (cs : List Char) : List Bool := (untakenChars false cs).filterMap brace?

theorem braces_cons_of_other {c : Char} {rest : List Char} (slash : c ≠ '\\') (opening : c ≠ '\x7b') (closing : c ≠ '\x7d') :
    braces (c :: rest) = braces rest := by
  have alone : takes false c = false := by simp [takes, slash]
  simp [braces, untakenChars, alone, brace?, opening, closing]

/-- Braces are counted as sized delimiters are. -/
theorem braceDepth?_eq (depth : Nat) (cs : List Char) : braceDepth? depth cs = sizedDepth? depth (braces cs) := by
  fun_induction braceDepth? depth cs with
  | case1 depth => rfl
  | case2 depth c rest ih => rw [ih]; rfl
  | case3 depth => rfl
  | case4 depth rest _ _ ih => rw [ih]; rfl
  | case5 rest => rfl
  | case6 depth rest opened _ _ _ ih =>
    obtain ⟨outer, rfl⟩ := Nat.exists_eq_succ_of_ne_zero opened
    rw [ih]
    rfl
  | case7 depth c rest followed last opening closing ih =>
    -- a backslash would be one that is followed by a character, or the last one of the text
    have slash : c ≠ '\\' := by
      rintro rfl
      cases rest with
      | nil => exact last rfl rfl
      | cons next rest => exact followed next rest rfl rfl
    rw [ih, braces_cons_of_other slash opening closing]

/-! ## Environments -/

/-- A beginning goes with an end of the same name. -/
def EnvironmentPair (first last : EnvironmentMark) : Prop :=
  first.isBegin = true ∧ last.isBegin = false ∧ first.name = last.name

/-- What can be wrong with the ends of environments: an end where none is open, an end under another name than the innermost
    open one, or a beginning that stays open. -/
inductive EndFault (marks : List EnvironmentMark) : FormulaError → Prop where
  | unexpected {before after : List EnvironmentMark} {mark : EnvironmentMark} (here : marks = before ++ mark :: after)
      (ends : mark.isBegin = false) (closed : Nests EnvironmentPair before) :
      EndFault marks (.unexpectedEnd (.ofList mark.name))
  | mismatched {before after opened : List EnvironmentMark} {mark first : EnvironmentMark}
      (here : marks = before ++ mark :: after) (ends : mark.isBegin = false)
      (leaves : Leaves EnvironmentPair before (first :: opened)) (other : first.name ≠ mark.name) :
      EndFault marks (.mismatchedEnvironment (.ofList first.name) (.ofList mark.name))

variable {names : List (List Char)} {name : List Char} {marks : List EnvironmentMark} {first last : EnvironmentMark}

theorem openEnvironments_begin (begins : first.isBegin = true) :
    openEnvironments names (first :: marks) = openEnvironments (first.name :: names) marks := by
  simp [openEnvironments, begins]

theorem openEnvironments_end (ends : last.isBegin = false) :
    openEnvironments (name :: names) (last :: marks) =
      if name = last.name then openEnvironments names marks
      else .error (.mismatchedEnvironment (.ofList name) (.ofList last.name)) := by
  simp [openEnvironments, ends]

theorem openEnvironments_end_of_none (ends : last.isBegin = false) :
    openEnvironments [] (last :: marks) = .error (.unexpectedEnd (.ofList last.name)) := by
  simp [openEnvironments, ends]

/-- A nested word leaves the stack as it is. -/
theorem openEnvironments_nests {word : List EnvironmentMark} (nests : Nests EnvironmentPair word)
    (opened : List (List Char)) (rest : List EnvironmentMark) :
    openEnvironments opened (word ++ rest) = openEnvironments opened rest := by
  induction nests generalizing opened rest with
  | nil => rfl
  | wrap partners _ _ within behind =>
    obtain ⟨begins, ends, same⟩ := partners
    rw [List.cons_append, openEnvironments_begin begins, List.append_assoc, within, List.cons_append,
      openEnvironments_end ends, if_pos same, behind]

/-- The stack holds the names that a word leaves open. -/
theorem openEnvironments_leaves {word opened : List EnvironmentMark} (leaves : Leaves EnvironmentPair word opened)
    (rest : List EnvironmentMark) :
    openEnvironments [] (word ++ rest) = openEnvironments (opened.map EnvironmentMark.name) rest := by
  induction leaves generalizing rest with
  | whole nests => exact openEnvironments_nests nests [] rest
  | opened before opens nests ih =>
    rw [List.append_assoc, ih, List.cons_append, openEnvironments_begin opens.choose_spec.1, openEnvironments_nests nests,
      List.map_cons]

/-- An end that has a fault is the last mark that is read. -/
theorem EndFault.openEnvironments_eq {error : FormulaError} (fault : EndFault marks error) :
    openEnvironments [] marks = .error error := by
  cases fault with
  | unexpected here ends closed =>
    rw [here, openEnvironments_nests closed, openEnvironments_end_of_none ends]
  | mismatched here ends leaves other =>
    rw [here, openEnvironments_leaves leaves, List.map_cons, openEnvironments_end ends, if_neg other]

/-- From a word on that leaves some marks open, either the rest is read and leaves others open, or one of its ends has a
    fault. -/
theorem openEnvironments_cases {read opened : List EnvironmentMark} (leaves : Leaves EnvironmentPair read opened)
    (rest : List EnvironmentMark) :
    (∃ left, openEnvironments (opened.map EnvironmentMark.name) rest = .ok (left.map EnvironmentMark.name) ∧
      Leaves EnvironmentPair (read ++ rest) left) ∨
    (∃ error, openEnvironments (opened.map EnvironmentMark.name) rest = .error error ∧ EndFault (read ++ rest) error) := by
  -- The same walk with names: what has been read leaves open exactly the marks whose names are on the stack.
  induction rest generalizing read opened with
  | nil => exact .inl ⟨opened, rfl, by rwa [List.append_nil]⟩
  | cons mark rest ih =>
    cases kind : mark.isBegin with
    | true =>
      have opens : ∃ last, EnvironmentPair mark last := ⟨⟨false, mark.name⟩, kind, rfl, rfl⟩
      rw [openEnvironments_begin kind, List.append_cons]
      exact ih (leaves.push opens)
    | false =>
      cases opened with
      | nil => exact .inr ⟨_, openEnvironments_end_of_none kind, .unexpected rfl kind (leaves_nil_iff.mp leaves)⟩
      | cons first opened =>
        rw [List.map_cons, openEnvironments_end kind]
        by_cases same : first.name = mark.name
        · have begins : first.isBegin = true := by
            cases leaves with
            | opened _ opens _ => exact opens.choose_spec.1
          rw [if_pos same, List.append_cons]
          exact ih (leaves.pop ⟨begins, kind, same⟩)
        · rw [if_neg same]
          exact .inr ⟨_, rfl, .mismatched rfl kind leaves same⟩

/-- The stack is what the marks leave open. -/
theorem openEnvironments_eq_ok_iff :
    openEnvironments [] marks = .ok names ↔
      ∃ opened, Leaves EnvironmentPair marks opened ∧ opened.map EnvironmentMark.name = names := by
  constructor
  · intro read
    rcases openEnvironments_cases (.whole .nil) marks with ⟨left, same, leaves⟩ | ⟨error, failed, -⟩
    · exact ⟨left, leaves, Except.ok.inj (same.symm.trans read)⟩
    · cases failed.symm.trans read
  · rintro ⟨opened, leaves, rfl⟩
    rw [← List.append_nil marks, openEnvironments_leaves leaves, openEnvironments]

/-- Reading fails exactly at an end that has a fault. -/
theorem openEnvironments_eq_error_iff {error : FormulaError} :
    openEnvironments [] marks = .error error ↔ EndFault marks error := by
  refine ⟨fun failed => ?_, EndFault.openEnvironments_eq⟩
  rcases openEnvironments_cases (.whole .nil) marks with ⟨left, same, -⟩ | ⟨found, same, fault⟩
  · cases same.symm.trans failed
  · obtain rfl := Except.error.inj (same.symm.trans failed)
    exact fault

end Galley.Math
