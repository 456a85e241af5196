import Galley.Shortcode
import Galley.Proofs.Text.Runs

/-!
# Reading shortcodes

Shortcodes are replaced by a search for names between colons, which keeps apart what has been written and what has only been
read. One who reads the text from left to right replaces a shortcode where one begins, goes on behind it, and copies all other
characters. Both write the same.

* `afterColon?`, `expandChars`, `holdsShortcode` — the text as it is read;
* `BeginsShortcode`, `Expands` — the same without any search, and `expands_iff`;
* `expandFrom_eq` — the search writes what is read;
* `Expands.settled` — no shortcode is left;
* `expand_reads_shortcodes` — replacing the shortcodes of a text.
-/

namespace Galley.Shortcode

open Galley.Text (run_iff takeWhile_exact)

variable {cs name before after rest glyph : List Char} {c : Char}

/-! ## The text as it is read -/

/-- After a colon: the pictogram of the name that stands there, if a colon follows it, and the text after that colon. -/
def afterColon? (cs : List Char) : Option (List Char × List Char) :=
  let name := cs.takeWhile isNameChar
  match cs.drop name.length with
  | ':' :: after => (glyph? (String.ofList name)).map fun glyph => (glyph.toList, after)
  | _ => none

/-- What follows a shortcode is shorter than what it was read from. -/
theorem length_of_afterColon? (h : afterColon? cs = some (glyph, after)) : after.length < cs.length := by
  simp only [afterColon?] at h
  split at h
  · rename_i rest hrest
    simp only [Option.map_eq_some_iff, Prod.mk.injEq] at h
    obtain ⟨_, _, _, rfl⟩ := h
    have := congrArg List.length hrest
    simp at this
    omega
  · simp at h

/-- The characters of a text with its shortcodes replaced. -/
def expandChars : List Char → List Char
  | [] => []
  | c :: rest =>
    if c = ':' then
      match h : afterColon? rest with
      | some (glyph, after) =>
        have := length_of_afterColon? h
        glyph ++ expandChars after
      | none => c :: expandChars rest
    else
      c :: expandChars rest
termination_by cs => cs.length
decreasing_by all_goals (simp only [List.length_cons]; omega)

/-- Whether a text holds a shortcode. -/
def holdsShortcode : List Char → Bool
  | [] => false
  | c :: rest => (c == ':' && (afterColon? rest).isSome) || holdsShortcode rest

theorem expandChars_colon_of_none (missing : afterColon? rest = none) :
    expandChars (':' :: rest) = ':' :: expandChars rest := by
  rw [expandChars, if_pos rfl]
  split
  next found => cases found.symm.trans missing
  next => rfl

theorem expandChars_colon_of_some (found : afterColon? rest = some (glyph, after)) :
    expandChars (':' :: rest) = glyph ++ expandChars after := by
  rw [expandChars, if_pos rfl]
  split
  next found' =>
    obtain ⟨rfl, rfl⟩ := Prod.mk.inj (Option.some.inj (found'.symm.trans found))
    rfl
  next missing => cases missing.symm.trans found

theorem expandChars_cons (other : c ≠ ':') (rest : List Char) : expandChars (c :: rest) = c :: expandChars rest := by
  rw [expandChars, if_neg other]

theorem holdsShortcode_cons (other : c ≠ ':') (rest : List Char) : holdsShortcode (c :: rest) = holdsShortcode rest := by
  simp [holdsShortcode, other]

theorem holdsShortcode_colon (rest : List Char) :
    holdsShortcode (':' :: rest) = ((afterColon? rest).isSome || holdsShortcode rest) := by
  simp [holdsShortcode]

/-! ## The search -/

theorem nameAfterColon?_eq_some_iff : nameAfterColon? cs = some (name, after) ↔
    name ++ ':' :: after = cs ∧ (∀ c ∈ name, isNameChar c = true) ∧ name ≠ [] := by
  constructor
  · intro found
    unfold nameAfterColon? at found
    simp only at found
    split at found
    next closed =>
      split at found
      next => cases found
      next filled =>
        obtain ⟨rfl, rfl⟩ := Prod.mk.inj (Option.some.inj found)
        obtain ⟨whole, letters, -⟩ := run_iff.mp ⟨rfl, closed⟩
        exact ⟨whole, letters, by simpa using filled⟩
    next => cases found
  · rintro ⟨rfl, letters, filled⟩
    obtain ⟨taken, closed⟩ := run_iff.mpr ⟨rfl (a := name ++ ':' :: after), letters, rfl⟩
    have filled' : name.isEmpty = false := by simpa using filled
    simp only [nameAfterColon?, taken, closed, filled', Bool.false_eq_true, if_false]

/-- A shortcode is a name that has a pictogram. -/
theorem afterColon?_eq (cs : List Char) : afterColon? cs = (nameAfterColon? cs).bind fun (name, after) =>
    (glyph? (.ofList name)).map fun glyph => (glyph.toList, after) := by
  unfold afterColon? nameAfterColon?
  simp only
  generalize cs.takeWhile isNameChar = name
  generalize cs.drop name.length = behind
  cases behind with
  | nil => rfl
  | cons stop after =>
    by_cases colon : stop = ':'
    · subst colon
      -- no pictogram has an empty name
      cases name <;> rfl
    · simp [colon]

theorem afterColon?_of_name (letters : ∀ c ∈ name, isNameChar c = true) (filled : name ≠ []) (after : List Char) :
    afterColon? (name ++ ':' :: after) = (glyph? (.ofList name)).map fun glyph => (glyph.toList, after) := by
  rw [afterColon?_eq, nameAfterColon?_eq_some_iff.mpr ⟨rfl, letters, filled⟩, Option.bind_some]

/-- Where no name stands between colons, a character is copied. -/
theorem copied (plain : c = ':' → nameAfterColon? rest = none) :
    expandChars (c :: rest) = c :: expandChars rest ∧ holdsShortcode (c :: rest) = holdsShortcode rest := by
  by_cases colon : c = ':'
  · subst colon
    have missing : afterColon? rest = none := by rw [afterColon?_eq, plain rfl, Option.bind_none]
    rw [expandChars_colon_of_none missing, holdsShortcode_colon, missing]
    exact ⟨rfl, rfl⟩
  · exact ⟨expandChars_cons colon rest, holdsShortcode_cons colon rest⟩

theorem copied_name (letters : ∀ c ∈ name, isNameChar c = true) (rest : List Char) :
    expandChars (name ++ rest) = name ++ expandChars rest ∧ holdsShortcode (name ++ rest) = holdsShortcode rest := by
  induction name with
  | nil => exact ⟨rfl, rfl⟩
  | cons c name ih =>
    obtain ⟨letter, others⟩ := List.forall_mem_cons.mp letters
    have notColon : c ≠ ':' := by
      rintro rfl
      cases letter
    obtain ⟨expanded, held⟩ := ih others
    rw [List.cons_append, expandChars_cons notColon, holdsShortcode_cons notColon, expanded, held]
    exact ⟨rfl, rfl⟩

/-- The search looks at a name between colons, or it goes on behind a character that is copied. -/
theorem nextName?_cons (c : Char) (rest : List Char) :
    (c = ':' ∧ ∃ name after, nameAfterColon? rest = some (name, after) ∧ nextName? (c :: rest) = some ([], name, after)) ∨
    ((c = ':' → nameAfterColon? rest = none) ∧
      nextName? (c :: rest) = (nextName? rest).map fun (before, name, after) => (c :: before, name, after)) := by
  rw [nextName?]
  by_cases colon : c = ':'
  · subst colon
    cases found : nameAfterColon? rest with
    | none => exact .inr ⟨fun _ => rfl, rfl⟩
    | some names => exact .inl ⟨rfl, names.1, names.2, rfl, rfl⟩
  · rw [beq_false_of_ne colon]
    exact .inr ⟨fun same => absurd same colon, rfl⟩

/-- A text without names between colons stays as it is. -/
theorem of_nextName?_none (missing : nextName? cs = none) : expandChars cs = cs ∧ holdsShortcode cs = false := by
  -- Induction on the text: each of its characters is copied, because no name stands behind it.
  induction cs with
  | nil => exact ⟨by rw [expandChars], rfl⟩
  | cons c rest ih =>
    obtain ⟨-, name, after, -, found⟩ | ⟨plain, next⟩ := nextName?_cons c rest
    · cases found.symm.trans missing
    · obtain ⟨expanded, held⟩ := ih (Option.map_eq_none_iff.mp (next.symm.trans missing))
      rw [(copied plain).1, (copied plain).2, expanded, held]
      exact ⟨rfl, rfl⟩

/-- What stands in front of the first name between colons is copied. -/
theorem of_nextName?_some (found : nextName? cs = some (before, name, after)) :
    (∀ c ∈ name, isNameChar c = true) ∧ name ≠ [] ∧
    expandChars cs = before ++ expandChars (':' :: (name ++ ':' :: after)) ∧
    holdsShortcode cs = holdsShortcode (':' :: (name ++ ':' :: after)) := by
  induction cs generalizing before with
  | nil => cases found
  | cons c rest ih =>
    obtain ⟨rfl, name', after', named, here⟩ | ⟨plain, next⟩ := nextName?_cons c rest
    · cases here.symm.trans found
      obtain ⟨rfl, letters, filled⟩ := nameAfterColon?_eq_some_iff.mp named
      exact ⟨letters, filled, rfl, rfl⟩
    · obtain ⟨⟨before', _, _⟩, later, same⟩ := Option.map_eq_some_iff.mp (next.symm.trans found)
      cases same
      obtain ⟨letters, filled, expanded, held⟩ := ih later
      rw [(copied plain).1, (copied plain).2, expanded, held]
      exact ⟨letters, filled, rfl, rfl⟩

/-- The search writes what is read, if a shortcode was replaced before or there is one in the rest. -/
theorem expandFrom_eq (written : Option (List Char)) (unwritten cs : List Char) :
    expandFrom written unwritten cs =
      if written.isSome || holdsShortcode cs then some (written.getD [] ++ unwritten ++ expandChars cs) else none := by
  -- At each name what is written and unwritten, followed by the expansion of the rest, stays the same text.
  fun_induction expandFrom written unwritten cs with
  | case1 written unwritten cs missing =>
    obtain ⟨expanded, held⟩ := of_nextName?_none missing
    rw [expanded, held]
    cases written <;> rfl
  | case2 written unwritten cs before name after found _ glyph known ih =>
    obtain ⟨letters, filled, expanded, held⟩ := of_nextName?_some found
    have here : afterColon? (name ++ ':' :: after) = some (glyph.toList, after) := by
      rw [afterColon?_of_name letters filled, known, Option.map_some]
    rw [expanded, held, expandChars_colon_of_some here, holdsShortcode_colon, here, ih]
    simp
  | case3 written unwritten cs before name after found _ unknown ih =>
    obtain ⟨letters, filled, expanded, held⟩ := of_nextName?_some found
    have here : afterColon? (name ++ ':' :: after) = none := by
      rw [afterColon?_of_name letters filled, unknown, Option.map_none]
    -- the name is copied, and so is the colon in front of it; the one behind it is read once more
    rw [expanded, held, expandChars_colon_of_none here, holdsShortcode_colon, here, (copied_name letters _).1,
      (copied_name letters _).2, ih]
    simp

theorem holdsShortcode_of_no_colon (absent : ':' ∉ cs) : holdsShortcode cs = false := by
  induction cs with
  | nil => rfl
  | cons c rest ih =>
    rw [List.mem_cons, not_or] at absent
    rw [holdsShortcode_cons (Ne.symm absent.1), ih absent.2]

theorem expandChars_of_plain (plain : holdsShortcode cs = false) : expandChars cs = cs := by
  induction cs with
  | nil => simp [expandChars]
  | cons c rest ih =>
    by_cases colon : c = ':'
    · subst colon
      rw [holdsShortcode_colon, Bool.or_eq_false_iff, Option.isSome_eq_false_iff, Option.isNone_iff_eq_none] at plain
      rw [expandChars_colon_of_none plain.1, ih plain.2]
    · rw [holdsShortcode_cons colon] at plain
      rw [expandChars_cons colon, ih plain]

theorem expand?_eq (text : String) :
    expand? text = if holdsShortcode text.toList then some (.ofList (expandChars text.toList)) else none := by
  unfold expand?
  split
  next =>
    rw [expandFrom_eq]
    cases holdsShortcode text.toList <;> rfl
  next absent => rw [holdsShortcode_of_no_colon (by simpa using absent), if_neg Bool.false_ne_true]

theorem expand_eq (text : String) : expand text = .ofList (expandChars text.toList) := by
  unfold expand
  rw [expand?_eq]
  cases held : holdsShortcode text.toList with
  | true => rfl
  | false => rw [expandChars_of_plain held, String.ofList_toList]; rfl

/-! ## Without a search -/

variable {out : List Char} {replaced : Bool}

/-- A text begins with a shortcode: a colon, a name that has a pictogram, and another colon. -/
def BeginsShortcode (cs : List Char) : Prop :=
  ∃ entry ∈ glyphs, ∃ after, ':' :: (entry.1.toList ++ ':' :: after) = cs

/-- Replacing shortcodes from left to right: where one begins, its pictogram is written and reading goes on behind it; each
    other character is copied. `replaced` says whether there was one. -/
inductive Expands : (text : List Char) → (replaced : Bool) → (out : List Char) → Prop where
  | done : Expands [] false []
  | shortcode {name glyph : String} {after out : List Char} {replaced : Bool} (known : (name, glyph) ∈ glyphs)
      (later : Expands after replaced out) : Expands (':' :: (name.toList ++ ':' :: after)) true (glyph.toList ++ out)
  | copied {c : Char} {rest out : List Char} {replaced : Bool} (plain : ¬ BeginsShortcode (c :: rest))
      (later : Expands rest replaced out) : Expands (c :: rest) replaced (c :: out)

/-- The names of the table are different, and made of the characters that can stand in a name. -/
theorem names_of_glyphs : ∀ entry ∈ glyphs,
    glyph? entry.1 = some entry.2 ∧ entry.1.toList ≠ [] ∧ entry.1.toList.all isNameChar = true := by
  decide +kernel

/-- Whether a character can stand in a shortcode. -/
def isShortcodeChar (c : Char) : Bool := isNameChar c || c == ':'

/-- No pictogram is empty, and none has characters that can stand in a shortcode. -/
theorem pictograms_of_glyphs : ∀ entry ∈ glyphs,
    entry.2.toList ≠ [] ∧ entry.2.toList.all (fun c => !isShortcodeChar c) = true := by
  decide +kernel

theorem afterColon?_eq_some_iff : afterColon? cs = some (glyph, after) ↔
    ∃ entry ∈ glyphs, entry.1.toList ++ ':' :: after = cs ∧ entry.2.toList = glyph := by
  constructor
  · intro found
    rw [afterColon?_eq, Option.bind_eq_some_iff] at found
    obtain ⟨⟨name, behind⟩, named, known⟩ := found
    obtain ⟨pictogram, listed, same⟩ := Option.map_eq_some_iff.mp known
    obtain ⟨rfl, rfl⟩ := Prod.mk.inj same
    obtain ⟨rfl, -⟩ := nameAfterColon?_eq_some_iff.mp named
    obtain ⟨front, back, table, -⟩ := List.lookup_eq_some_iff.mp listed
    exact ⟨(.ofList name, pictogram), by rw [table]; simp, by rw [String.toList_ofList], rfl⟩
  · rintro ⟨entry, listed, rfl, rfl⟩
    obtain ⟨known, filled, letters⟩ := names_of_glyphs entry listed
    rw [afterColon?_of_name (List.all_eq_true.mp letters) filled, String.ofList_toList, known, Option.map_some]

theorem beginsShortcode_colon_iff : BeginsShortcode (':' :: rest) ↔ (afterColon? rest).isSome := by
  rw [Option.isSome_iff_exists, Prod.exists]
  constructor
  · rintro ⟨entry, listed, after, same⟩
    exact ⟨_, after, afterColon?_eq_some_iff.mpr ⟨entry, listed, (List.cons.inj same).2, rfl⟩⟩
  · rintro ⟨glyph, after, found⟩
    obtain ⟨entry, listed, rfl, -⟩ := afterColon?_eq_some_iff.mp found
    exact ⟨entry, listed, after, rfl⟩

/-- What is read is what there is without a search. -/
theorem expands_expandChars (cs : List Char) : Expands cs (holdsShortcode cs) (expandChars cs) := by
  fun_induction expandChars cs with
  | case1 => exact .done
  | case2 rest glyph after found _ ih =>
    rw [holdsShortcode_colon, found]
    obtain ⟨entry, listed, rfl, rfl⟩ := afterColon?_eq_some_iff.mp found
    exact .shortcode listed ih
  | case3 rest missing ih =>
    rw [holdsShortcode_colon, missing]
    refine .copied ?_ ih
    rw [beginsShortcode_colon_iff, missing]
    exact Bool.false_ne_true
  | case4 c rest other ih =>
    rw [holdsShortcode_cons other]
    refine .copied ?_ ih
    rintro ⟨_, -, _, same⟩
    exact other (List.cons.inj same).1.symm

/-- There is only one way to replace the shortcodes of a text. -/
theorem Expands.unique (expands : Expands cs replaced out) : replaced = holdsShortcode cs ∧ out = expandChars cs := by
  induction expands with
  | done => exact ⟨rfl, by rw [expandChars]⟩
  | @shortcode name glyph after out _ known _ ih =>
    have found : afterColon? (name.toList ++ ':' :: after) = some (glyph.toList, after) :=
      afterColon?_eq_some_iff.mpr ⟨_, known, rfl, rfl⟩
    rw [holdsShortcode_colon, expandChars_colon_of_some found, found, ih.2]
    exact ⟨rfl, rfl⟩
  | @copied c rest out replaced plain _ ih =>
    obtain ⟨rfl, rfl⟩ := ih
    by_cases colon : c = ':'
    · subst colon
      rw [beginsShortcode_colon_iff, Option.not_isSome_iff_eq_none] at plain
      rw [holdsShortcode_colon, expandChars_colon_of_none plain, plain]
      exact ⟨rfl, rfl⟩
    · rw [holdsShortcode_cons colon, expandChars_cons colon]
      exact ⟨rfl, rfl⟩

theorem expands_iff : Expands cs replaced out ↔ replaced = holdsShortcode cs ∧ out = expandChars cs :=
  ⟨Expands.unique, fun ⟨held, expanded⟩ => held ▸ expanded ▸ expands_expandChars cs⟩

/-! ## No shortcode is left -/

/-- A character that can stand in a shortcode has been copied. -/
theorem Expands.front (expands : Expands cs replaced (c :: out)) (inShortcode : isShortcodeChar c = true) :
    ∃ rest later, cs = c :: rest ∧ Expands rest later out := by
  generalize whole : c :: out = text at expands
  cases expands with
  | done => cases whole
  | @shortcode name glyph after out' _ known _ =>
    -- it would be the first one of a pictogram
    obtain ⟨filled, others⟩ := pictograms_of_glyphs _ known
    obtain ⟨d, pictogram, written⟩ := List.exists_cons_of_ne_nil filled
    simp only [written] at whole others
    obtain ⟨rfl, -⟩ := List.cons.inj whole
    simp [inShortcode] at others
  | copied _ later =>
    obtain ⟨rfl, rfl⟩ := List.cons.inj whole
    exact ⟨_, _, rfl, later⟩

theorem Expands.front_append {front : List Char} (inShortcode : ∀ c ∈ front, isShortcodeChar c = true)
    (expands : Expands cs replaced (front ++ out)) : ∃ rest, cs = front ++ rest := by
  induction front generalizing cs replaced with
  | nil => exact ⟨cs, rfl⟩
  | cons c front ih =>
    obtain ⟨first, others⟩ := List.forall_mem_cons.mp inShortcode
    obtain ⟨rest, _, rfl, later⟩ := expands.front first
    obtain ⟨behind, rfl⟩ := ih others later
    exact ⟨behind, rfl⟩

/-- No shortcode begins in a pictogram. -/
theorem suffix_of_pictogram {pictogram : List Char} (others : ∀ c ∈ pictogram, isShortcodeChar c = false)
    (suffix : rest <:+ pictogram ++ out) (begins : BeginsShortcode rest) : rest <:+ out := by
  induction pictogram with
  | nil => exact suffix
  | cons c pictogram ih =>
    obtain ⟨first, others⟩ := List.forall_mem_cons.mp others
    rcases List.suffix_cons_iff.mp suffix with rfl | inner
    · obtain ⟨_, -, _, same⟩ := begins
      obtain ⟨rfl, -⟩ := List.cons.inj same
      cases first
    · exact ih others inner

/-- Where the shortcodes of a text are replaced, none is left or made. -/
theorem Expands.settled (expands : Expands cs replaced out) : ∀ rest, rest <:+ out → ¬ BeginsShortcode rest := by
  induction expands with
  | done =>
    rintro rest suffix ⟨_, -, _, rfl⟩
    cases List.suffix_nil.mp suffix
  | shortcode known _ ih =>
    intro rest suffix begins
    have others := (pictograms_of_glyphs _ known).2
    exact ih rest (suffix_of_pictogram (by simpa using others) suffix begins) begins
  | @copied c text out _ plain later ih =>
    intro rest suffix begins
    rcases List.suffix_cons_iff.mp suffix with rfl | inner
    · -- a shortcode here would have been one of the text
      obtain ⟨entry, listed, after, same⟩ := begins
      obtain ⟨rfl, rfl⟩ := List.cons.inj same
      have letters := List.all_eq_true.mp (names_of_glyphs entry listed).2.2
      rw [List.append_cons] at later
      obtain ⟨behind, rfl⟩ := later.front_append (by
        intro c member
        rcases List.mem_append.mp member with inName | colon
        · rw [isShortcodeChar, letters c inName, Bool.true_or]
        · rw [List.mem_singleton.mp colon]
          rfl)
      exact plain ⟨entry, listed, behind, by rw [← List.append_cons]⟩
    · exact ih rest inner begins

theorem holdsShortcode_eq_false (settled : ∀ rest, rest <:+ cs → ¬ BeginsShortcode rest) : holdsShortcode cs = false := by
  induction cs with
  | nil => rfl
  | cons c text ih =>
    have later := ih fun rest suffix => settled rest (suffix.trans (List.suffix_cons c text))
    by_cases colon : c = ':'
    · subst colon
      have here := settled _ (List.suffix_refl _)
      rw [beginsShortcode_colon_iff, Bool.not_eq_true] at here
      rw [holdsShortcode_colon, here, later, Bool.false_or]
    · rw [holdsShortcode_cons colon, later]

/-- Replacing the shortcodes of a text writes what one gets who reads it from left to right. There is a new text exactly if a
    shortcode was replaced, none is left in it, and replacing them once more changes nothing. -/
theorem expand_reads_shortcodes (text : String) :
    (∀ replaced out, Expands text.toList replaced out ↔
      replaced = (expand? text).isSome ∧ out = (expand text).toList) ∧
      (∀ rest, rest <:+ (expand text).toList → ¬ BeginsShortcode rest) ∧
      expand (expand text) = expand text := by
  have settled := (expands_expandChars text.toList).settled
  have written : (expand text).toList = expandChars text.toList := by rw [expand_eq, String.toList_ofList]
  have replaced : (expand? text).isSome = holdsShortcode text.toList := by
    rw [expand?_eq]
    cases holdsShortcode text.toList <;> rfl
  rw [written, replaced]
  refine ⟨fun replaced out => expands_iff, settled, ?_⟩
  rw [← String.toList_inj, expand_eq, String.toList_ofList, written, expandChars_of_plain (holdsShortcode_eq_false settled)]

end Galley.Shortcode
