import Galley.Proofs.Html.Stages
import Galley.Proofs.Text.Decoding

/-!
# The parts of markup

Markup as a program writes it is taken apart in its tags and the text between them. The reader is strict: outside of tags
no bracket may stand, a tag has nothing but attributes in double quotes, and no value has a bracket in it.

* `Part` — a tag, or the text between two tags, with all references decoded;
* `Cursor` — what has been read of a part, and `Cursor.next?`, how a character goes on from there;
* `Part.ofMarkup?` — the parts of markup, if there is nothing else in it;
* `ConsistsOf` — markup and its parts, where each bracket belongs to a tag;
* `Takes` — markup that leads from one cursor to another one, and the parts that are complete on the way;
* `Takes.value`, `Takes.shown` — what is written escaped stays in its place.
-/

namespace Galley.Html

open Galley.Text (decodeReferences)

/-- A tag, or the text between two tags. -/
inductive Part where
  /-- An opening tag, with what its attributes say. -/
  | start (name : String) (attributes : List (String × String))
  /-- A closing tag. -/
  | stop (name : String)
  /-- What is shown. -/
  | text (shown : String)
  deriving Repr, DecidableEq

/-- Whether a part is a tag. -/
def Part.isTag : Part → Bool
  | text _ => false
  | _ => true

/-- A text between two tags. Where nothing is said there is no part. -/
def Part.ofText (shown : String) : List Part := if shown = "" then [] else [.text shown]

theorem Part.ofText_of_ne {shown : String} (said : shown ≠ "") : Part.ofText shown = [.text shown] := if_neg said

/-- What has been read of a part. -/
inductive Cursor where
  /-- Text, the last character first. -/
  | text (reversed : List Char)
  /-- An opening bracket. -/
  | bracket
  /-- An opening bracket and a solidus. -/
  | closing
  /-- A part of the name of a closing tag, the last character first. -/
  | stopName (reversed : List Char)
  /-- A part of the name of an opening tag, the last character first. -/
  | startName (reversed : List Char)
  /-- A tag with some attributes and a blank. -/
  | inside (name : String) (attributes : List (String × String))
  /-- A part of the name of an attribute, the last character first. -/
  | key (name : String) (attributes : List (String × String)) (reversed : List Char)
  /-- The name of an attribute and an equals sign. -/
  | equals (name : String) (attributes : List (String × String)) (key : String)
  /-- A part of the value of an attribute, the last character first. -/
  | value (name : String) (attributes : List (String × String)) (key : String) (reversed : List Char)
  /-- A value with both of its quotes. -/
  | quoted (name : String) (attributes : List (String × String))
  /-- A solidus at the end of an opening tag. -/
  | solidus (name : String) (attributes : List (String × String))
  deriving Repr, DecidableEq

/-- A text that has been read, with its references decoded. -/
def decodedReversed (reversed : List Char) : String := decodeReferences (.ofList reversed.reverse)

namespace Cursor

/-- How a character goes on from a cursor, and what it completes. -/
def next? : Cursor → Char → Option (Cursor × List Part)
  | text reversed, c =>
    if c = '<' then some (bracket, Part.ofText (decodedReversed reversed))
    else if c = '>' then none
    else some (text (c :: reversed), [])
  | bracket, c =>
    if c = '/' then some (closing, []) else if c.isLower then some (startName [c], []) else none
  | closing, c => if c.isLower then some (stopName [c], []) else none
  | stopName reversed, c =>
    if isNameChar c then some (stopName (c :: reversed), [])
    else if c = '>' then some (text [], [.stop (.ofList reversed.reverse)])
    else none
  | startName reversed, c =>
    if isNameChar c then some (startName (c :: reversed), [])
    else if c = ' ' then some (inside (.ofList reversed.reverse) [], [])
    else if c = '>' then some (text [], [.start (.ofList reversed.reverse) []])
    else none
  | inside name attributes, c =>
    if c = '/' then some (solidus name attributes, [])
    else if c.isLower then some (key name attributes [c], [])
    else none
  | key name attributes reversed, c =>
    if c.isLower ∨ c = '-' then some (key name attributes (c :: reversed), [])
    else if c = '=' then some (equals name attributes (.ofList reversed.reverse), [])
    else none
  | equals name attributes attr, c =>
    if c = '\x22' then some (value name attributes attr [], []) else none
  | value name attributes attr reversed, c =>
    if c = '\x22' then some (quoted name (attributes ++ [(attr, decodedReversed reversed)]), [])
    else if c = '<' ∨ c = '>' then none
    else some (value name attributes attr (c :: reversed), [])
  | quoted name attributes, c =>
    if c = ' ' then some (inside name attributes, [])
    else if c = '/' then some (solidus name attributes, [])
    else if c = '>' then some (text [], [.start name attributes])
    else none
  | solidus name attributes, c =>
    if c = '>' then some (text [], [.start name attributes]) else none

/-- The cursor after some characters, and the parts that they complete. -/
def after? : Cursor → List Char → Option (Cursor × List Part)
  | cursor, [] => some (cursor, [])
  | cursor, c :: rest =>
    (cursor.next? c).bind fun next => (next.1.after? rest).map fun last => (last.1, next.2 ++ last.2)

variable {start middle stop : Cursor} {a b rest : List Char} {c : Char} {parts first others : List Part}

theorem after?_cons_eq_some : start.after? (c :: rest) = some (stop, parts) ↔
    ∃ next first others, start.next? c = some (next, first) ∧ next.after? rest = some (stop, others) ∧
      first ++ others = parts := by
  simp only [after?, Option.bind_eq_some_iff, Option.map_eq_some_iff, Prod.exists, Prod.mk.injEq]
  constructor
  · rintro ⟨next, first, goes, last, others, reads, rfl, rfl⟩
    exact ⟨next, first, others, goes, reads, rfl⟩
  · rintro ⟨next, first, others, goes, reads, rfl⟩
    exact ⟨next, first, goes, stop, others, reads, rfl, rfl⟩

theorem after?_append (left : start.after? a = some (middle, first)) (right : middle.after? b = some (stop, others)) :
    start.after? (a ++ b) = some (stop, first ++ others) := by
  induction a generalizing start first with
  | nil =>
    obtain ⟨rfl, rfl⟩ := Prod.mk.inj (Option.some.inj left)
    exact right
  | cons c a ih =>
    obtain ⟨next, own, later, goes, reads, rfl⟩ := after?_cons_eq_some.mp left
    rw [List.append_assoc]
    exact after?_cons_eq_some.mpr ⟨next, own, later ++ others, goes, ih reads, rfl⟩

/-- Without brackets text goes on. -/
theorem after?_text {reversed : List Char} (opens : '<' ∉ a) (closes : '>' ∉ a) :
    (text reversed).after? a = some (text (a.reverse ++ reversed), []) := by
  induction a generalizing reversed with
  | nil => rfl
  | cons c a ih =>
    obtain ⟨noOpen, opens⟩ := not_or.mp (mt List.mem_cons.mpr opens)
    obtain ⟨noClose, closes⟩ := not_or.mp (mt List.mem_cons.mpr closes)
    have goes : (text reversed).next? c = some (text (c :: reversed), []) := by
      rw [next?, if_neg (Ne.symm noOpen), if_neg (Ne.symm noClose)]
    rw [List.reverse_cons, List.append_assoc]
    exact after?_cons_eq_some.mpr ⟨_, [], [], goes, ih opens closes, rfl⟩

/-- Without brackets and quotes a value goes on. -/
theorem after?_value {name attr : String} {attributes : List (String × String)} {reversed : List Char}
    (opens : '<' ∉ a) (closes : '>' ∉ a) (quotes : '\x22' ∉ a) :
    (value name attributes attr reversed).after? a =
      some (value name attributes attr (a.reverse ++ reversed), []) := by
  induction a generalizing reversed with
  | nil => rfl
  | cons c a ih =>
    obtain ⟨noOpen, opens⟩ := not_or.mp (mt List.mem_cons.mpr opens)
    obtain ⟨noClose, closes⟩ := not_or.mp (mt List.mem_cons.mpr closes)
    obtain ⟨noQuote, quotes⟩ := not_or.mp (mt List.mem_cons.mpr quotes)
    have goes : (value name attributes attr reversed).next? c =
        some (value name attributes attr (c :: reversed), []) := by
      rw [next?, if_neg (Ne.symm noQuote), if_neg (not_or.mpr ⟨Ne.symm noOpen, Ne.symm noClose⟩)]
    rw [List.reverse_cons, List.append_assoc]
    exact after?_cons_eq_some.mpr ⟨_, [], [], goes, ih opens closes quotes, rfl⟩

end Cursor

/-- The parts of markup that consists of tags and text. -/
def Part.ofMarkup? (markup : String) : Option (List Part) :=
  match (Cursor.text []).after? markup.toList with
  | some (.text reversed, parts) => some (parts ++ Part.ofText (decodedReversed reversed))
  | _ => none

/-! ## Brackets -/

/-- Whether a tag has begun that is not complete. -/
def Cursor.isTag : Cursor → Bool
  | text _ => false
  | _ => true

theorem Part.countP_ofText (shown : String) : (Part.ofText shown).countP Part.isTag = 0 := by
  unfold Part.ofText
  split <;> rfl

/-- An opening bracket begins a tag, and a closing one completes it. -/
theorem Cursor.count_next? {start next : Cursor} {c : Char} {first : List Part}
    (goes : start.next? c = some (next, first)) :
    (if c = '<' then 1 else 0) + start.isTag.toNat = first.countP Part.isTag + next.isTag.toNat ∧
      (if c = '>' then 1 else 0) = first.countP Part.isTag := by
  have closeIsNoName : isNameChar '>' = false := by decide
  have openIsNoName : isNameChar '<' = false := by decide
  have closeIsNoLetter : '>'.isLower = false := by decide
  have openIsNoLetter : '<'.isLower = false := by decide
  cases start <;> simp only [next?] at goes
  case text reversed =>
    split_ifs at goes with opens closes <;> obtain ⟨rfl, rfl⟩ := Prod.mk.inj (Option.some.inj goes)
    · simp [opens, Part.countP_ofText, isTag]
    · simp [opens, closes, isTag]
  -- Inside of a tag an opening bracket goes on from nowhere, and a closing one only to text.
  all_goals
    split_ifs at goes <;> obtain ⟨rfl, rfl⟩ := Prod.mk.inj (Option.some.inj goes)
    all_goals
      by_cases opens : c = '<'
      · simp_all
      · by_cases closes : c = '>' <;> simp_all [isTag, Part.isTag]

theorem Cursor.count_after? {start stop : Cursor} {cs : List Char} {parts : List Part}
    (reads : start.after? cs = some (stop, parts)) :
    cs.count '<' + start.isTag.toNat = parts.countP Part.isTag + stop.isTag.toNat ∧
      cs.count '>' = parts.countP Part.isTag := by
  induction cs generalizing start parts with
  | nil =>
    obtain ⟨rfl, rfl⟩ := Prod.mk.inj (Option.some.inj reads)
    simp
  | cons c rest ih =>
    obtain ⟨next, first, others, goes, later, rfl⟩ := after?_cons_eq_some.mp reads
    obtain ⟨opens, closes⟩ := count_next? goes
    obtain ⟨laterOpens, laterCloses⟩ := ih later
    simp only [List.count_cons, List.countP_append, beq_iff_eq]
    omega

/-- Markup consists of some parts. -/
structure ConsistsOf (markup : String) (parts : List Part) : Prop where
  /-- They are all that is read. -/
  read : Part.ofMarkup? markup = some parts
  /-- Each opening bracket begins one of the tags. -/
  opens : markup.toList.count '<' = parts.countP Part.isTag
  /-- Each closing bracket ends one of them. -/
  closes : markup.toList.count '>' = parts.countP Part.isTag

/-! ## Markup piece by piece -/

/-- Markup leads from one cursor to another one and completes some parts. -/
structure Takes (start : Cursor) (markup : String) (stop : Cursor) (parts : List Part) : Prop where
  /-- All of it is read. -/
  reads : start.after? markup.toList = some (stop, parts)

theorem takes_iff {start stop : Cursor} {markup : String} {parts : List Part} :
    Takes start markup stop parts ↔ start.after? markup.toList = some (stop, parts) :=
  ⟨Takes.reads, Takes.mk⟩

instance decidableTakes (start : Cursor) (markup : String) (stop : Cursor) (parts : List Part) :
    Decidable (Takes start markup stop parts) :=
  decidable_of_iff _ takes_iff.symm

namespace Takes

variable {start middle stop : Cursor} {a b : String} {parts first others : List Part}

theorem empty (cursor : Cursor) : Takes cursor "" cursor [] := ⟨rfl⟩

theorem append (left : Takes start a middle first) (right : Takes middle b stop others) :
    Takes start (a ++ b) stop (first ++ others) := by
  refine ⟨?_⟩
  rw [String.toList_append]
  exact Cursor.after?_append left.reads right.reads

/-- Markup that ends in text. -/
theorem consistsOf {markup : String} {reversed : List Char} (takes : Takes (.text []) markup (.text reversed) parts) :
    ConsistsOf markup (parts ++ Part.ofText (decodedReversed reversed)) := by
  obtain ⟨opens, closes⟩ := Cursor.count_after? takes.reads
  refine ⟨?_, ?_, ?_⟩
  · unfold Part.ofMarkup?
    rw [takes.reads]
  · simpa [List.countP_append, Part.countP_ofText, Cursor.isTag] using opens
  · simpa [List.countP_append, Part.countP_ofText] using closes

/-- Markup that ends with a tag. -/
theorem consistsOf_of_tag {markup : String} (takes : Takes (.text []) markup (.text []) parts) : ConsistsOf markup parts := by
  have nothing : Part.ofText (decodedReversed []) = [] := by decide
  have whole := takes.consistsOf
  rwa [nothing, List.append_nil] at whole

/-- Text without brackets. -/
theorem ofText {reversed : List Char} (opens : '<' ∉ a.toList) (closes : '>' ∉ a.toList) :
    Takes (.text reversed) a (.text (a.toList.reverse ++ reversed)) [] :=
  ⟨Cursor.after?_text opens closes⟩

/-- A value without brackets and quotes. -/
theorem inValue {name key : String} {attributes : List (String × String)} {reversed : List Char}
    (opens : '<' ∉ a.toList) (closes : '>' ∉ a.toList) (quotes : '\x22' ∉ a.toList) :
    Takes (.value name attributes key reversed) a (.value name attributes key (a.toList.reverse ++ reversed)) [] :=
  ⟨Cursor.after?_value opens closes quotes⟩

/-! ## What is written escaped -/

/-- A text that is written escaped goes on with the text in front of it. -/
theorem shown (reversed : List Char) (text : String) :
    Takes (.text reversed) (Text.escapeText text) (.text ((Text.escapeText text).toList.reverse ++ reversed)) [] := by
  have clean : ∀ {c : Char}, c = '<' ∨ c = '>' → c ∉ (Text.escapeText text).toList := by
    intro c bracket
    rw [Text.escapeText, String.toList_ofList]
    exact Text.not_mem_escapeText bracket _
  exact .ofText (clean (.inl rfl)) (clean (.inr rfl))

/-- A value that is written escaped stays between its quotes. -/
theorem value (name : String) (attributes : List (String × String)) (key : String) (reversed : List Char)
    (text : String) :
    Takes (.value name attributes key reversed) (Text.escapeAttribute text)
      (.value name attributes key ((Text.escapeAttribute text).toList.reverse ++ reversed)) [] := by
  have clean : ∀ {c : Char}, c = '<' ∨ c = '>' ∨ c = '\x22' → c ∉ (Text.escapeAttribute text).toList := by
    intro c special
    rw [Text.escapeAttribute, String.toList_ofList]
    exact Text.not_mem_escapeAttribute special _
  exact .inValue (clean (.inl rfl)) (clean (.inr (.inl rfl))) (clean (.inr (.inr rfl)))

end Takes

/-- What is shown of a text written escaped between two others. -/
theorem decodedReversed_shown {front back : String} (plain : '&' ∉ front.toList) (ends : '&' ∉ back.toList) (text : String) :
    decodedReversed (back.toList.reverse ++ ((Text.escapeText text).toList.reverse ++ front.toList.reverse)) =
      front ++ text ++ back := by
  rw [← String.toList_inj]
  unfold decodedReversed decodeReferences Text.escapeText
  simp only [String.toList_ofList, List.reverse_append, List.reverse_reverse, List.append_assoc, String.toList_append]
  rw [Text.decodeChars_append_of_not_mem plain, Text.decodeChars_escapeText_append]
  simpa using Text.decodeChars_append_of_not_mem ends []

/-- What an attribute says whose value is written escaped behind another text. -/
theorem decodedReversed_value {front : String} (plain : '&' ∉ front.toList) (text : String) :
    decodedReversed ((Text.escapeAttribute text).toList.reverse ++ front.toList.reverse) = front ++ text := by
  rw [← String.toList_inj]
  unfold decodedReversed decodeReferences Text.escapeAttribute
  simp only [String.toList_ofList, List.reverse_append, List.reverse_reverse, String.toList_append]
  rw [Text.decodeChars_append_of_not_mem plain, Text.decodeChars_escapeAttribute]

/-- What needs no escape is shown as it is. -/
theorem decodedReversed_plain {text : String} (plain : '&' ∉ text.toList) : decodedReversed text.toList.reverse = text := by
  rw [← String.toList_inj]
  unfold decodedReversed decodeReferences
  simpa using Text.decodeChars_append_of_not_mem plain []

/-! ## Slots -/

/-- Text that needs no escape. -/
def IsPlain (text : String) : Prop := '<' ∉ text.toList ∧ '>' ∉ text.toList ∧ '&' ∉ text.toList

instance decidableIsPlain (text : String) : Decidable (IsPlain text) := inferInstanceAs (Decidable (_ ∧ _ ∧ _))

/-- Markup ends a text with a tag. -/
def Closes (markup : String) (others : List Part) : Prop :=
  ∀ reversed, Takes (.text reversed) markup (.text []) (Part.ofText (decodedReversed reversed) ++ others)

namespace Takes

variable {opening closing : String} {others first : List Part}

/-- The last attribute of a tag says what was written escaped, behind what its value begins with. -/
theorem lastAttribute (name : String) (attributes : List (String × String)) (key front : String)
    (plain : '&' ∉ front.toList) (text : String) :
    Takes (.value name attributes key front.toList.reverse) (Text.escapeAttribute text ++ "\">") (.text [])
      [.start name (attributes ++ [(key, front ++ text)])] := by
  rw [← decodedReversed_value plain]
  exact (value name attributes key front.toList.reverse text).append ⟨rfl⟩

/-- Between two tags is what was written escaped, and what is always written around it. -/
theorem framed (front back : String) (opens : Takes (.text []) opening (.text []) first) (closes : Closes closing others)
    (plainFront : IsPlain front) (plainBack : IsPlain back) (text : String) :
    Takes (.text []) (opening ++ (front ++ (Text.escapeText text ++ (back ++ closing)))) (.text [])
      (first ++ (Part.ofText (front ++ text ++ back) ++ others)) := by
  have begins : Takes (.text []) front (.text (front.toList.reverse ++ [])) [] := ofText plainFront.1 plainFront.2.1
  have escaped := shown (front.toList.reverse ++ []) text
  have whole := opens.append (begins.append (escaped.append ((ofText plainBack.1 plainBack.2.1).append (closes _))))
  simpa only [List.append_nil, List.nil_append, decodedReversed_shown plainFront.2.2 plainBack.2.2] using whole

/-- Between two tags is nothing but what was written escaped. -/
theorem alone (closes : Closes closing others) (text : String) :
    Takes (.text []) (Text.escapeText text ++ closing) (.text []) (Part.ofText text ++ others) := by
  simpa using framed "" "" (.empty _) closes (by decide) (by decide) text

end Takes

end Galley.Html
