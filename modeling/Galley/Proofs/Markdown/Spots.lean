import Galley.Html.Token
import Galley.Proofs.Markdown.Silent

/-!
# Places in markup

Reading markup from left to right tells what each of its characters is a part of.

* `Spot` — what a place in markup is a part of, and `Spot.next`, how that changes from one character to the
  next;
* `Leads` — markup from one spot to another one, with sentinels only where markup can stand;
* `Leads.escaped`, `Leads.quoted` — escaped texts stay where they are;
* `Leads.level` — the names of headings.
-/

namespace Galley

open Galley.Source (Marking Silent isPrivateUse silent_of_plain silent_toString silent_escapeAttribute)

/-- What a character of markup is a part of. -/
inductive Part where
  /-- Text between tags. -/
  | text
  /-- An opening bracket. -/
  | bracket
  /-- An opening bracket and a solidus. -/
  | solidus
  /-- A comment, as far as it was read behind its first mark. -/
  | comment (read : List Char)
  /-- The name of a tag, as far as it was read, the last character first. -/
  | name (isClosing : Bool) (reversed : List Char)
  /-- What follows the name in a tag. -/
  | attributes
  /-- The name of an attribute, or blanks after it. -/
  | key
  /-- An equals sign, or blanks after it. -/
  | equals
  /-- A value in quotation marks. -/
  | value (quote : Char)
  /-- A value without quotation marks. -/
  | bare
  deriving Repr, DecidableEq

/-- A place in markup. -/
structure Spot where
  /-- What stands there. -/
  part : Part
  /-- How many elements of code are open there. -/
  codeDepth : Nat
  deriving Repr, DecidableEq

namespace Spot

/-- Between tags, with some elements of code open. -/
def text (codeDepth : Nat) : Spot := ⟨.text, codeDepth⟩

/-- In the value of an attribute, with some elements of code open. -/
def value (codeDepth : Nat) : Spot := ⟨.value '\x22', codeDepth⟩

/-- Whether a name is that of an element whose content is shown as it is. -/
def isCodeName (reversed : List Char) : Bool :=
  reversed.reverse == "code".toList || reversed.reverse == "pre".toList

/-- How many elements of code are open after a tag. -/
def depthAfter (isClosing : Bool) (reversed : List Char) (depth : Nat) : Nat :=
  if isCodeName reversed then (if isClosing then depth - 1 else depth + 1) else depth

/-- Whether a closing bracket ends a comment. Without two hyphens at its start it always does. -/
def endsComment (read : List Char) : Bool :=
  !"--".toList.isPrefixOf read || read == "--".toList || read == "---".toList ||
    ["--", "--!"].any fun stop => stop.toList.isSuffixOf (read.drop 2)

/-- Whether a character ends the name of a tag. -/
def endsName (c : Char) : Bool := c == '>' || c == '/' || Html.isSpace c

/-- What a character is followed by. -/
def nextPart (part : Part) (c : Char) : Part :=
  match part with
  | .text => if c = '<' then .bracket else .text
  | .bracket =>
    if c.isAlpha then .name false [c.toLower]
    else if c = '/' then .solidus
    else if c = '!' then .comment []
    else if c = '?' then .comment ['?']
    else if c = '<' then .bracket
    else .text
  | .solidus =>
    if c.isAlpha then .name true [c.toLower]
    else if c = '>' then .text
    else .comment [c]
  | .comment read => if c = '>' ∧ endsComment read = true then .text else .comment (read ++ [c])
  | .name isClosing reversed =>
    if c = '>' then .text
    else if endsName c then .attributes
    else .name isClosing (c.toLower :: reversed)
  | .attributes =>
    if c = '>' then .text
    else if endsName c then .attributes
    else .key
  | .key =>
    if c = '>' then .text
    else if c = '=' then .equals
    else if c = '/' then .attributes
    else .key
  | .equals =>
    if c = '>' then .text
    else if Html.isSpace c = true then .equals
    else if c = '\x22' ∨ c = '\x27' then .value c
    else .bare
  | .value quote => if c = quote then .attributes else part
  | .bare =>
    if c = '>' then .text
    else if Html.isSpace c = true then .attributes
    else .bare

/-- How many elements of code are open after a character. -/
def nextDepth (part : Part) (c : Char) (depth : Nat) : Nat :=
  match part with
  | .name isClosing reversed => if endsName c then depthAfter isClosing reversed depth else depth
  | _ => depth

/-- The spot after a character. -/
def next (spot : Spot) (c : Char) : Spot :=
  ⟨nextPart spot.part c, nextDepth spot.part c spot.codeDepth⟩

/-- The spot after a text. -/
def after (spot : Spot) (cs : List Char) : Spot := cs.foldl next spot

/-- Whether markup can take the place of a token here. -/
def isOpen (spot : Spot) : Bool := spot.part == .text && spot.codeDepth == 0

theorem after_append (spot : Spot) (a b : List Char) : spot.after (a ++ b) = (spot.after a).after b :=
  List.foldl_append

/-- Without opening brackets text goes on. -/
theorem after_text {depth : Nat} {cs : List Char} (plain : '<' ∉ cs) : (text depth).after cs = text depth := by
  induction cs with
  | nil => rfl
  | cons c rest ih =>
    obtain ⟨other, plain⟩ := not_or.mp (mt List.mem_cons.mpr plain)
    have next : (text depth).next c = text depth := by
      simp [next, nextPart, nextDepth, text, Ne.symm other]
    rw [after, List.foldl_cons, next]
    exact ih plain

/-- Without quotes a value goes on. -/
theorem after_value {depth : Nat} {cs : List Char} (plain : '\x22' ∉ cs) :
    (value depth).after cs = value depth := by
  induction cs with
  | nil => rfl
  | cons c rest ih =>
    obtain ⟨other, plain⟩ := not_or.mp (mt List.mem_cons.mpr plain)
    have next : (value depth).next c = value depth := by
      simp [next, nextPart, nextDepth, value, Ne.symm other]
    rw [after, List.foldl_cons, next]
    exact ih plain

end Spot

/-- Markup leads from one spot to another one, and every sentinel in it stands between tags and outside of
    code. -/
structure Leads (sentinel : Char) (start : Spot) (markup : String) (stop : Spot) : Prop where
  /-- It ends at the second spot. -/
  stop : start.after markup.toList = stop
  /-- Markup can stand where a sentinel stands. -/
  placed : ∀ front rest, markup.toList = front ++ sentinel :: rest → (start.after front).isOpen = true

namespace Leads

variable {m : Marking} {start middle stop : Spot} {a b : String}

/-- Markup without sentinels. -/
theorem of_silent (silent : Silent m a) (ends : start.after a.toList = stop) : Leads m.opening start a stop :=
  ⟨ends, fun front rest split => absurd (by rw [split]; simp) silent⟩

/-- Fixed markup. -/
theorem fixed (markup : String) (plain : markup.toList.all (fun c => !isPrivateUse c) = true)
    (ends : start.after markup.toList = stop) : Leads m.opening start markup stop :=
  of_silent (silent_of_plain plain) ends

theorem empty (spot : Spot) : Leads m.opening spot "" spot := fixed "" rfl rfl

theorem append (left : Leads m.opening start a middle) (right : Leads m.opening middle b stop) :
    Leads m.opening start (a ++ b) stop where
  stop := by rw [String.toList_append, Spot.after_append, left.stop, right.stop]
  placed front rest split := by
    rw [String.toList_append] at split
    rcases List.append_eq_append_iff.mp split with ⟨front', rfl, inside⟩ | ⟨back, whole, inside⟩
    · rw [Spot.after_append, left.stop]
      exact right.placed front' rest inside
    · cases back with
      | nil =>
        rw [List.append_nil] at whole
        rw [← whole, left.stop]
        exact right.placed [] rest inside.symm
      | cons c back =>
        obtain ⟨rfl, -⟩ := List.cons.inj inside
        exact left.placed front back whole

/-- Text without opening brackets may hold sentinels outside of code. -/
theorem ofText (plain : '<' ∉ a.toList) : Leads m.opening (.text 0) a (.text 0) where
  stop := Spot.after_text plain
  placed front rest split := by
    rw [Spot.after_text fun member => plain (by rw [split]; simp [member])]
    rfl

theorem inValue {depth : Nat} (silent : Silent m a) (plain : '\x22' ∉ a.toList) :
    Leads m.opening (.value depth) a (.value depth) :=
  .of_silent silent (Spot.after_value plain)

end Leads

/-! ## Escaped texts -/

theorem not_mem_escapeTextChar (c : Char) : '<' ∉ Text.escapeTextChar c := by
  unfold Text.escapeTextChar
  split
  · decide
  split
  · decide
  next other =>
  split
  · decide
  · exact fun member => other (List.mem_singleton.mp member).symm

theorem not_mem_escapeText (a : String) : '<' ∉ (Text.escapeText a).toList := by
  rw [Text.escapeText, String.toList_ofList, List.mem_flatMap]
  rintro ⟨c, -, written⟩
  exact not_mem_escapeTextChar c written

theorem not_mem_escapeAttribute (a : String) : '\x22' ∉ (Text.escapeAttribute a).toList := by
  rw [Text.escapeAttribute, String.toList_ofList, List.mem_flatMap]
  rintro ⟨c, -, written⟩
  unfold Text.escapeAttributeChar Text.escapeTextChar at written
  split at written
  · exact absurd written (by decide)
  next other =>
  split at written
  · exact absurd written (by decide)
  split at written
  · exact absurd written (by decide)
  split at written
  · exact absurd written (by decide)
  · exact other (List.mem_singleton.mp written).symm

/-- An address holds no bracket and no quote. -/
theorem not_mem_escapeAddress {c : Char} (special : c = '<' ∨ c = '>' ∨ c = '\x22') (address : String) :
    c ∉ (Markdown.escapeAddress address).toList := by
  rw [Markdown.escapeAddress, String.toList_ofList, List.mem_flatMap]
  rintro ⟨b, -, written⟩
  have all : ∀ n < 256, '<' ∉ Markdown.addressByte (UInt8.ofNat n) ∧ '>' ∉ Markdown.addressByte (UInt8.ofNat n) ∧
      '\x22' ∉ Markdown.addressByte (UInt8.ofNat n) := by decide +kernel
  have here := all b.toNat b.toNat_lt
  rw [UInt8.ofNat_toNat] at here
  rcases special with rfl | rfl | rfl
  · exact here.1 written
  · exact here.2.1 written
  · exact here.2.2 written

theorem not_mem_toString {c : Char} (other : c.isDigit = false) (n : Nat) : c ∉ (toString n).toList := by
  intro member
  change c ∈ (Nat.repr n).toList at member
  rw [Nat.toList_repr] at member
  rw [Marking.isDigit_of_mem_toDigits member] at other
  cases other

namespace Leads

variable {m : Marking} {stop : Spot} {a : String}

/-- Escaped text between tags. -/
theorem escaped (a : String) : Leads m.opening (.text 0) (Text.escapeText a) (.text 0) :=
  .ofText (not_mem_escapeText a)

/-- Escaped text in code. -/
theorem escapedInCode {depth : Nat} (silent : Silent m a) :
    Leads m.opening (.text depth) (Text.escapeText a) (.text depth) :=
  .of_silent (Source.silent_escapeText silent) (Spot.after_text (not_mem_escapeText a))

/-- Escaped text in the value of an attribute. -/
theorem quoted {depth : Nat} (silent : Silent m a) :
    Leads m.opening (.value depth) (Text.escapeAttribute a) (.value depth) :=
  .inValue (silent_escapeAttribute silent) (not_mem_escapeAttribute a)

/-- An address in the value of an attribute. -/
theorem address {depth : Nat} (address : String) :
    Leads m.opening (.value depth) (Markdown.escapeAddress address) (.value depth) :=
  .inValue (Source.silent_escapeAddress address) (not_mem_escapeAddress (.inr (.inr rfl)) address)

/-- A number in the value of an attribute. -/
theorem number {depth : Nat} (n : Nat) : Leads m.opening (.value depth) (toString n) (.value depth) :=
  .inValue (silent_toString n) (not_mem_toString (by decide) n)

/-- A number goes on with the name of a tag. -/
theorem level {isClosing : Bool} (reversed : List Char) {depth : Nat} (n : Nat) :
    Leads m.opening ⟨.name isClosing reversed, depth⟩ (toString n)
      ⟨.name isClosing ((toString n).toList.reverse ++ reversed), depth⟩ := by
  have digits : ∀ c ∈ (toString n).toList, c.isDigit = true := fun c member => by
    change c ∈ (Nat.repr n).toList at member
    rw [Nat.toList_repr] at member
    exact Marking.isDigit_of_mem_toDigits member
  refine .of_silent (silent_toString n) ?_
  generalize (toString n).toList = cs at digits
  induction cs generalizing reversed with
  | nil => rfl
  | cons c rest ih =>
    obtain ⟨digit, others⟩ := List.forall_mem_cons.mp digits
    have goesOn : Spot.endsName c = false := by
      rw [← Bool.not_eq_true]
      intro ends
      simp only [Spot.endsName, Html.isSpace, Bool.or_eq_true, beq_iff_eq, or_assoc] at ends
      rcases ends with rfl | rfl | rfl | rfl | rfl | rfl | rfl <;> exact absurd digit (by decide)
    have bracket : c ≠ '>' := by
      rintro rfl
      exact absurd digit (by decide)
    have lower : c.toLower = c := by
      simp only [Char.isDigit, Bool.and_eq_true, decide_eq_true_eq, UInt32.le_iff_toNat_le] at digit
      unfold Char.toLower
      refine dif_neg fun upper => ?_
      simp only [ge_iff_le, UInt32.le_iff_toNat_le] at upper
      exact absurd (Nat.le_trans upper.1 digit.2) (by decide)
    have next : Spot.next ⟨.name isClosing reversed, depth⟩ c = ⟨.name isClosing (c :: reversed), depth⟩ := by
      simp [Spot.next, Spot.nextPart, Spot.nextDepth, goesOn, bracket, lower]
    have rest := ih (c :: reversed) others
    unfold Spot.after at rest ⊢
    rw [List.foldl_cons, next, rest, List.reverse_cons, List.append_assoc]
    rfl

theorem isCodeName_heading (digits : List Char) : Spot.isCodeName (digits ++ ['h']) = false := by
  simp [Spot.isCodeName]

/-- The end of a tag that is not one of code. -/
theorem endTag {isClosing : Bool} {reversed : List Char} {depth : Nat}
    (other : Spot.isCodeName reversed = false) :
    Leads m.opening ⟨.name isClosing reversed, depth⟩ ">" (.text depth) :=
  .of_silent (silent_of_plain (by decide)) (by
    simp [Spot.after, Spot.next, Spot.nextPart, Spot.nextDepth, Spot.endsName, Spot.depthAfter, other, Spot.text])

/-- An id in a tag that is not one of code. -/
theorem idStart {isClosing : Bool} {reversed : List Char} {depth : Nat}
    (other : Spot.isCodeName reversed = false) :
    Leads m.opening ⟨.name isClosing reversed, depth⟩ " id=\"" (.value depth) :=
  .of_silent (silent_of_plain (by decide)) (by
    simp [Spot.after, Spot.next, Spot.nextPart, Spot.nextDepth, Spot.endsName, Html.isSpace, Spot.depthAfter, other,
      Spot.value])

end Leads
end Galley
