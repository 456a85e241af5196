import Galley.Proofs.Html.References

/-!
# Markup that keeps to a vocabulary

Markup is read character by character, and what its tags say is held against a list.

* `Vocabulary` — what tags may say;
* `Stage` — what has been read of a tag, and `Stage.next?`, how a character goes on from there;
* `Stage.after?_normalizeBreaks` — line breaks make no difference;
* `Reads` — markup that leads from one stage to another one.
-/

namespace Galley.Html

/-- What tags may say. -/
structure Vocabulary where
  /-- The names of elements. -/
  names : String → Bool
  /-- The attributes of an element that may have any value. -/
  free : String → String → Bool
  /-- The values of its other attributes. -/
  values : String → String → String → Bool

/-- An attribute of an element is on the list. -/
def Vocabulary.Allows (v : Vocabulary) (tag : String) (attr : Attribute) : Prop :=
  v.free tag attr.name = true ∨ v.values tag attr.name attr.value = true

/-- An element of HTML is on the list, with all its attributes. -/
structure Vocabulary.Admits (v : Vocabulary) (element : Element) : Prop where
  /-- It is an element of HTML. -/
  space : element.space = .html
  /-- Its name is on the list. -/
  name : v.names element.name = true
  /-- So are its attributes. -/
  attributes : ∀ attr ∈ element.attributes, v.Allows element.name attr

/-- What has been read of a tag. -/
inductive Stage where
  /-- Nothing: text. -/
  | text
  /-- An opening bracket. -/
  | bracket
  /-- An opening bracket and a solidus. -/
  | solidus
  /-- A part of the name, the last character first. -/
  | name (isClosing : Bool) (reversed : List Char)
  /-- The name of the element, and maybe attributes. -/
  | inside (tag : String)
  /-- A part of the name of an attribute, the last character first. -/
  | key (tag : String) (reversed : List Char)
  /-- The name of an attribute and an equals sign. -/
  | equals (tag key : String)
  /-- A part of a value that may be anything. -/
  | value (tag : String)
  /-- A part of a value that counts, the last character first. -/
  | counted (tag key : String) (reversed : List Char)
  deriving Repr, DecidableEq

/-- Whether a name that goes on with a character is written as markup is always written here. -/
def isNameChar (c : Char) : Bool := c.isLower || c.isDigit

namespace Stage

/-- Whether markup may end here: in text, or in a value that may be anything. -/
def isEnd : Stage → Bool
  | text => true
  | value _ => true
  | _ => false

/-- How a character goes on from a stage, if it does not leave the vocabulary. -/
def next? (v : Vocabulary) : Stage → Char → Option Stage
  | text, c => some (if c = '<' then bracket else text)
  | bracket, c => if c = '/' then some solidus else if c.isLower then some (name false [c]) else none
  | solidus, c => if c.isLower then some (name true [c]) else none
  | name isClosing reversed, c =>
    if isNameChar c then some (name isClosing (c :: reversed))
    else if isClosing then if c = '>' then some text else none
    else if v.names (.ofList reversed.reverse) then
      if c = '>' then some text
      else if c = ' ' then some (inside (.ofList reversed.reverse))
      else none
    else none
  | inside tag, c =>
    if c = '>' then some text
    else if c = ' ' ∨ c = '/' then some (inside tag)
    else if c.isLower then some (key tag [c])
    else none
  | key tag reversed, c =>
    if c.isLower ∨ c = '-' then some (key tag (c :: reversed))
    else if c = '=' then some (equals tag (.ofList reversed.reverse))
    else none
  | equals tag attr, c =>
    if c = '\x22' then some (if v.free tag attr then value tag else counted tag attr []) else none
  | value tag, c => some (if c = '\x22' then inside tag else value tag)
  | counted tag attr reversed, c =>
    if c = '\x22' then
      if v.values tag attr (.ofList (valueOf reversed.reverse)) then some (inside tag) else none
    else if c = '\r' then none
    else some (counted tag attr (c :: reversed))

/-- The stage after a text. -/
def after? (v : Vocabulary) : Stage → List Char → Option Stage
  | stage, [] => some stage
  | stage, c :: rest => (stage.next? v c).bind fun next => next.after? v rest

variable {v : Vocabulary} {start middle stop : Stage} {a b cs rest : List Char} {c : Char}

theorem after?_cons_eq_some : start.after? v (c :: rest) = some stop ↔
    ∃ next, start.next? v c = some next ∧ next.after? v rest = some stop :=
  Option.bind_eq_some_iff

theorem after?_append (start : Stage) (a b : List Char) :
    start.after? v (a ++ b) = (start.after? v a).bind fun middle => middle.after? v b := by
  induction a generalizing start with
  | nil => rfl
  | cons c a ih =>
    rw [List.cons_append, after?, after?, Option.bind_assoc]
    exact congrArg _ (funext ih)

/-- Without opening brackets text goes on. -/
theorem after?_text (plain : '<' ∉ cs) : text.after? v cs = some text := by
  induction cs with
  | nil => rfl
  | cons c rest ih =>
    obtain ⟨other, plain⟩ := not_or.mp (mt List.mem_cons.mpr plain)
    rw [after?, next?, if_neg (Ne.symm other)]
    exact ih plain

/-- Without quotes a value goes on. -/
theorem after?_value {tag : String} (plain : '\x22' ∉ cs) : (value tag).after? v cs = some (value tag) := by
  induction cs with
  | nil => rfl
  | cons c rest ih =>
    obtain ⟨other, plain⟩ := not_or.mp (mt List.mem_cons.mpr plain)
    rw [after?, next?, if_neg (Ne.symm other)]
    exact ih plain

theorem after?_counted {tag key : String} {reversed : List Char} (plain : '\x22' ∉ cs) (noBreak : '\r' ∉ cs) :
    (counted tag key reversed).after? v cs = some (counted tag key (cs.reverse ++ reversed)) := by
  induction cs generalizing reversed with
  | nil => rfl
  | cons c rest ih =>
    obtain ⟨other, plain⟩ := not_or.mp (mt List.mem_cons.mpr plain)
    obtain ⟨noReturn, noBreak⟩ := not_or.mp (mt List.mem_cons.mpr noBreak)
    rw [after?, next?, if_neg (Ne.symm other), if_neg (Ne.symm noReturn), List.reverse_cons, List.append_assoc]
    exact ih plain noBreak

/-- A part of a text that is no tag. -/
theorem after?_right (plain : '<' ∉ a) (reads : text.after? v (a ++ b) = some stop) : text.after? v b = some stop := by
  rwa [after?_append, after?_text plain] at reads

/-! ## Line breaks -/

/-- A carriage return stands only where any line break can. -/
theorem next?_return (reads : start.next? v '\r' = some stop) : stop = start ∧ start.next? v '\n' = some start := by
  have plain : isNameChar '\r' = false := by decide
  cases start with
  | text => exact ⟨(Option.some.inj reads).symm, rfl⟩
  | value tag => exact ⟨(Option.some.inj reads).symm, rfl⟩
  | name isClosing reversed => simp [next?, plain] at reads
  | _ => simp [next?] at reads

/-- Line breaks are read alike, whichever way they are written. -/
theorem after?_normalizeBreaks (reads : start.after? v cs = some stop) :
    start.after? v (normalizeBreaks cs) = some stop := by
  fun_induction normalizeBreaks cs generalizing start with
  | case1 => exact reads
  | case2 rest ih =>
    obtain ⟨next, first, others⟩ := after?_cons_eq_some.mp reads
    obtain ⟨last, second, later⟩ := after?_cons_eq_some.mp others
    exact after?_cons_eq_some.mpr ⟨last, (next?_return first).1 ▸ second, ih later⟩
  | case3 rest _ ih =>
    obtain ⟨next, first, others⟩ := after?_cons_eq_some.mp reads
    exact after?_cons_eq_some.mpr ⟨start, (next?_return first).2, ih ((next?_return first).1 ▸ others)⟩
  | case4 c rest _ _ ih =>
    obtain ⟨next, first, others⟩ := after?_cons_eq_some.mp reads
    exact after?_cons_eq_some.mpr ⟨next, first, ih others⟩

end Stage

/-- Markup leads from one stage to another one without leaving the vocabulary. -/
def Reads (v : Vocabulary) (start : Stage) (markup : String) (stop : Stage) : Prop :=
  start.after? v markup.toList = some stop

instance decidableReads (v : Vocabulary) (start : Stage) (markup : String) (stop : Stage) :
    Decidable (Reads v start markup stop) :=
  inferInstanceAs (Decidable (_ = _))

namespace Reads

variable {v : Vocabulary} {start middle stop : Stage} {a b : String}

theorem empty (stage : Stage) : Reads v stage "" stage := rfl

theorem append (left : Reads v start a middle) (right : Reads v middle b stop) : Reads v start (a ++ b) stop := by
  unfold Reads at left right ⊢
  rw [String.toList_append, Stage.after?_append, left]
  exact right

/-- Text without opening brackets. -/
theorem ofText (plain : '<' ∉ a.toList) : Reads v .text a .text := Stage.after?_text plain

/-- A value without quotes that may be anything. -/
theorem inValue {tag : String} (plain : '\x22' ∉ a.toList) : Reads v (.value tag) a (.value tag) := Stage.after?_value plain

end Reads
end Galley.Html
