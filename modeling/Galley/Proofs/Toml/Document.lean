import Galley.Proofs.Toml.Literal

/-!
# Documents are read as they were written

A document says on each line which value stands under which key, and may go on with a table of more such lines. Whatever
texts stand in it, it is read as it was written.

* `value_encode`, `value_encodeTexts` — a text and a list of texts, in front of what ends them;
* `key_encodeKey` — a key;
* `Line`, `line_entryLine`, `line_headingLine` — what a line states, whatever follows it;
* `build_assigns`, `build_fields` — values under different keys come one after the other;
* `read_fields` — a whole document.
-/

namespace Galley.Toml

open Galley.Settings (Value)

variable {c : Char} {cs rest : List Char} {fuel : Nat}

/-! ## Blanks and ends of lines -/

/-- A character at which something begins that is more than blanks. -/
def begins (c : Char) : Bool := !isSpace c && c != '#' && c != '\n' && c != '\r'

theorem dropSpace_cons (noSpace : isSpace c = false) (rest : List Char) : dropSpace (c :: rest) = c :: rest := by
  unfold dropSpace
  exact List.dropWhile_cons_of_neg (by simp [noSpace])

theorem dropSpace_of_begins (start : begins c = true) (rest : List Char) : dropSpace (c :: rest) = c :: rest := by
  simp only [begins, Bool.and_eq_true, Bool.not_eq_true'] at start
  exact dropSpace_cons start.1.1.1 rest

theorem dropBreak?_of_begins (start : begins c = true) (rest : List Char) : dropBreak? (c :: rest) = none := by
  simp only [begins, Bool.and_eq_true, bne_iff_ne] at start
  unfold dropBreak?
  split
  next same => exact absurd (List.cons.inj same).1 start.1.2
  next same => exact absurd (List.cons.inj same).1 start.2
  next => rfl

/-- Where something begins nothing is skipped. -/
theorem dropLines_of_begins (fuel : Nat) (start : begins c = true) (rest : List Char) :
    dropLines fuel (c :: rest) = .ok (c :: rest) := by
  cases fuel with
  | zero => rfl
  | succ fuel =>
    have noComment : c ≠ '#' := by
      simp only [begins, Bool.and_eq_true, bne_iff_ne] at start
      exact start.1.1.2
    rw [dropLines, dropSpace_of_begins start]
    split
    next same => exact absurd (List.cons.inj same).1 noComment
    next => rw [dropBreak?_of_begins start]

theorem dropLines_break (fuel : Nat) (rest : List Char) : dropLines (fuel + 1) ('\n' :: rest) = dropLines fuel rest := rfl

/-- The margin of an item is skipped. -/
theorem dropLines_margin (fuel : Nat) (start : begins c = true) (rest : List Char) :
    dropLines (fuel + 1) (margin ++ c :: rest) = .ok (c :: rest) := by
  have space : dropSpace (margin ++ c :: rest) = dropSpace (c :: rest) := rfl
  rw [← dropLines_of_begins (fuel + 1) start rest, dropLines, dropLines, space]

/-! ## Values -/

/-- A text is written with a mark in front. -/
theorem exists_encode (cs : List Char) : ∃ mark tail, encode cs = mark :: tail ∧ (mark = '\x22' ∨ mark = '\x27') := by
  unfold encode
  cases styleOf cs with
  | quoted => exact ⟨_, _, rfl, .inl rfl⟩
  | plain => exact ⟨_, _, rfl, .inr rfl⟩
  | quotedLines => exact ⟨_, _, rfl, .inl rfl⟩
  | plainLines => exact ⟨_, _, rfl, .inr rfl⟩

/-- What may follow a value: it ends a line or an item. -/
def endsValue (c : Char) : Bool := c == '\n' || c == ',' || c == ']'

/-- A text is read as it was written. -/
theorem value_encode (text : String) (rest : List Char) (ends : endsValue c = true) :
    ∃ found, value (fuel + 1) (encode text.toList ++ c :: rest) = .ok (found, c :: rest) ∧ found.text? = .ok text := by
  generalize isText : text.toList = cs
  refine ⟨.located (encode cs ++ c :: rest).length (.text (.ofList cs)), ?_, ?_⟩
  case refine_2 =>
    rw [← isText, String.ofList_toList]
    rfl
  have read : literal? (encode cs ++ c :: rest) = some (.ok (cs, c :: rest)) := by
    apply literal?_encode <;> intro same <;> rw [Option.some.inj same] at ends <;> revert ends <;> decide
  obtain ⟨mark, tail, written, isMark⟩ := exists_encode cs
  have noBracket : ∀ d after, d = '[' ∨ d = '\x7b' → encode cs ++ c :: rest = d :: after → False := by
    intro d after isBracket same
    rw [written, List.cons_append] at same
    rcases isBracket with rfl | rfl <;> rcases isMark with rfl | rfl <;> cases same
  rw [value, read]
  · rfl
  · exact fun after => noBracket '[' after (.inl rfl)
  · exact fun after => noBracket '\x7b' after (.inr rfl)

/-! ## Lists -/

/-- An item in front of others. -/
theorem items_comma {first : Value} {after next : List Char} (more : ∀ tail, cs ≠ ']' :: tail)
    (read : value fuel cs = .ok (first, ',' :: after)) (skipped : dropLines after.length after = .ok next) :
    items (fuel + 1) cs = Reading.map (first :: ·) (items fuel next) := by
  have stays : dropLines (',' :: after).length (',' :: after) = .ok (',' :: after) :=
    dropLines_of_begins _ (by decide) after
  rw [items, read]
  · simp only [bind, Except.bind, stays, skipped]
  · exact fun tail => more tail

/-- The last item. -/
theorem items_bracket {first : Value} {after : List Char} (more : ∀ tail, cs ≠ ']' :: tail)
    (read : value fuel cs = .ok (first, ']' :: after)) : items (fuel + 1) cs = .ok ([first], after) := by
  have stays : dropLines (']' :: after).length (']' :: after) = .ok (']' :: after) :=
    dropLines_of_begins _ (by decide) after
  rw [items, read]
  · simp only [bind, Except.bind, stays]
    rfl
  · exact fun tail => more tail

theorem exists_encode_append (cs rest : List Char) :
    ∃ mark tail, encode cs ++ rest = mark :: tail ∧ begins mark = true ∧ mark ≠ ']' := by
  obtain ⟨mark, tail, written, isMark⟩ := exists_encode cs
  refine ⟨mark, tail ++ rest, by rw [written, List.cons_append], ?_⟩
  rcases isMark with rfl | rfl <;> decide

/-- A text is no end of a list. -/
theorem encode_append_ne (cs rest tail : List Char) : encode cs ++ rest ≠ ']' :: tail := by
  obtain ⟨mark, more, written, -, noEnd⟩ := exists_encode_append cs rest
  rw [written]
  exact fun same => noEnd (List.cons.inj same).1

/-- The lines of a list with an item on each. -/
def itemLines (texts : List String) (rest : List Char) : List Char :=
  (texts.flatMap fun item => margin ++ encode item.toList ++ [',', '\n']) ++ ']' :: rest

theorem items_itemLines (texts : List String) (rest : List Char) (enough : texts.length < fuel) (n : Nat) :
    ∃ next found, dropLines (n + 1) (itemLines texts rest) = .ok next ∧ items fuel next = .ok (found, rest) ∧
      found.mapM Value.text? = .ok texts := by
  induction texts generalizing fuel n with
  | nil =>
    obtain ⟨fuel, rfl⟩ := Nat.exists_eq_succ_of_ne_zero (show fuel ≠ 0 by omega)
    exact ⟨']' :: rest, [], dropLines_of_begins _ (by decide) rest, by rw [items], rfl⟩
  | cons item others ih =>
    have lengths : (item :: others).length = others.length + 1 := rfl
    obtain ⟨fuel, rfl⟩ : ∃ k, fuel = k + 2 := ⟨fuel - 2, by omega⟩
    have longer : (itemLines others rest).length ≠ 0 := by simp [itemLines]
    obtain ⟨length, isLength⟩ := Nat.exists_eq_succ_of_ne_zero longer
    obtain ⟨next, found, skipped, read, given⟩ := ih (show others.length < fuel + 1 by omega) length
    have written : itemLines (item :: others) rest =
        margin ++ (encode item.toList ++ ',' :: '\n' :: itemLines others rest) := by
      simp [itemLines, List.append_assoc]
    have later : dropLines ('\n' :: itemLines others rest).length ('\n' :: itemLines others rest) = .ok next := by
      rw [List.length_cons, dropLines_break, isLength, skipped]
    obtain ⟨own, first, isText⟩ := value_encode item ('\n' :: itemLines others rest) (show endsValue ',' = true by decide)
    refine ⟨encode item.toList ++ ',' :: '\n' :: itemLines others rest, own :: found, ?_, ?_, ?_⟩
    · obtain ⟨mark, tail, begun, starts, -⟩ := exists_encode_append item.toList (',' :: '\n' :: itemLines others rest)
      rw [written, begun]
      exact dropLines_margin n starts tail
    · rw [items_comma (encode_append_ne _ _) first later, read]
      rfl
    · rw [List.mapM_cons, isText, given]
      rfl

/-- A list of texts is read as it was written. -/
theorem value_encodeTexts (texts : List String) (rest : List Char) (enough : texts.length + 2 < fuel) :
    ∃ found, value fuel (encodeTexts texts ++ '\n' :: rest) = .ok (found, '\n' :: rest) ∧ found.texts? = .ok texts := by
  obtain ⟨fuel, rfl⟩ : ∃ k, fuel = k + 3 := ⟨fuel - 3, by omega⟩
  have within : ∀ {inner next : List Char} {found : List Value}, dropLines inner.length inner = .ok next →
      items (fuel + 2) next = .ok (found, '\n' :: rest) → found.mapM Value.text? = .ok texts →
        ∃ found, value (fuel + 3) ('[' :: inner) = .ok (found, '\n' :: rest) ∧ found.texts? = .ok texts := by
    intro inner next found skipped read given
    refine ⟨.located ('[' :: inner).length (.list found), ?_, ?_⟩
    · rw [value, skipped]
      simp only [bind, Except.bind, read]
      rfl
    · change (found.mapM Value.text?).mapError _ = _
      rw [given]
      rfl
  match texts with
  | [] =>
    have skipped : dropLines (']' :: '\n' :: rest).length (']' :: '\n' :: rest) = .ok (']' :: '\n' :: rest) :=
      dropLines_of_begins _ (by decide) _
    exact within skipped (by rw [items]) rfl
  | [item] =>
    obtain ⟨mark, tail, begun, starts, -⟩ := exists_encode_append item.toList (']' :: '\n' :: rest)
    obtain ⟨own, first, isText⟩ := value_encode item ('\n' :: rest) (show endsValue ']' = true by decide)
    have written : encodeTexts [item] ++ '\n' :: rest = '[' :: (encode item.toList ++ ']' :: '\n' :: rest) := by
      simp [encodeTexts]
    rw [written]
    refine within ?_ (items_bracket (encode_append_ne _ _) first) ?_
    · rw [begun]
      exact dropLines_of_begins _ starts _
    · rw [List.mapM_cons, isText]
      rfl
  | first :: second :: others =>
    have written : encodeTexts (first :: second :: others) ++ '\n' :: rest =
        '[' :: '\n' :: itemLines (first :: second :: others) ('\n' :: rest) := by
      simp [encodeTexts, itemLines]
    have longer : (itemLines (first :: second :: others) ('\n' :: rest)).length ≠ 0 := by simp [itemLines]
    obtain ⟨length, isLength⟩ := Nat.exists_eq_succ_of_ne_zero longer
    obtain ⟨next, found, skipped, read, given⟩ := items_itemLines (first :: second :: others) ('\n' :: rest)
      (show (first :: second :: others).length < fuel + 2 by omega) length
    rw [written]
    refine within ?_ read given
    rw [List.length_cons, dropLines_break, isLength, skipped]

/-! ## Keys -/

/-- A key is written with a character in front that opens no table and no list. -/
theorem exists_encodeKey (cs : List Char) :
    ∃ d tail, encodeKey cs = d :: tail ∧ begins d = true ∧ d ≠ '[' := by
  have quoted : ∃ d tail, Style.quoted.encode cs = d :: tail ∧ begins d = true ∧ d ≠ '[' :=
    ⟨'\x22', _, rfl, by decide, by decide⟩
  unfold encodeKey
  split_ifs with bare
  · rw [Bool.and_eq_true, Bool.not_eq_true'] at bare
    cases cs with
    | nil => exact absurd bare.1 (by decide)
    | cons d tail =>
      have isKey : isKeyChar d = true := by simpa using (List.all_eq_true.mp bare.2) d List.mem_cons_self
      refine ⟨d, tail, rfl, ?_, ?_⟩
      · unfold begins isSpace
        simp only [Bool.and_eq_true, Bool.not_eq_true', Bool.or_eq_false_iff, beq_eq_false_iff_ne, bne_iff_ne]
        refine ⟨⟨⟨⟨?_, ?_⟩, ?_⟩, ?_⟩, ?_⟩ <;> rintro rfl <;> revert isKey <;> decide
      · rintro rfl
        revert isKey
        decide
  · exact quoted
  · exact ⟨'\x27', _, rfl, by decide, by decide⟩
  · exact quoted

/-- What can stand in a key is no mark of a text. -/
theorem lineLiteral?_of_isKeyChar (isKey : isKeyChar c = true) : lineLiteral? (c :: rest) = none := by
  have noMark : c ≠ '\x22' ∧ c ≠ '\x27' := by
    refine ⟨?_, ?_⟩ <;> rintro rfl <;> revert isKey <;> decide
  unfold lineLiteral?
  split
  next same => exact absurd (List.cons.inj same).1 noMark.1
  next same => exact absurd (List.cons.inj same).1 noMark.2
  next => rfl

/-- A key is read as it was written. -/
theorem key_encodeKey (name : String) (rest : List Char) (noKey : isKeyChar c = false) (ends : endsWord c = true) :
    ∃ found : Key, key (encodeKey name.toList ++ c :: rest) = .ok (found, c :: rest) ∧ found.name = name := by
  have literal : ∀ {whole : List Char}, lineLiteral? whole = some (.ok (name.toList, c :: rest)) →
      ∃ found : Key, key whole = .ok (found, c :: rest) ∧ found.name = name := by
    intro whole read
    refine ⟨⟨.ofList name.toList, whole.length⟩, ?_, String.ofList_toList⟩
    unfold key
    rw [read]
    rfl
  unfold encodeKey
  split_ifs with bare fitsQuoted fitsPlain
  · rw [Bool.and_eq_true, Bool.not_eq_true'] at bare
    have word : (name.toList ++ c :: rest).takeWhile isKeyChar = name.toList := by
      rw [List.takeWhile_append_of_pos (List.all_eq_true.mp bare.2), List.takeWhile_cons_of_neg (by simp [noKey]),
        List.append_nil]
    have noLiteral : lineLiteral? (name.toList ++ c :: rest) = none := by
      cases shape : name.toList with
      | nil => simp [shape] at bare
      | cons d tail =>
        have isKey : isKeyChar d = true := by
          rw [shape] at bare
          exact (List.all_eq_true.mp bare.2) d List.mem_cons_self
        exact lineLiteral?_of_isKeyChar isKey
    refine ⟨⟨.ofList name.toList, (name.toList ++ c :: rest).length⟩, ?_, String.ofList_toList⟩
    unfold key
    simp only [noLiteral, word, List.drop_left]
    rw [if_neg (by simp [bare.1]), if_pos (by simpa using ends)]
  · exact literal (lineLiteral?_quoted _ _)
  · exact literal (lineLiteral?_plain fitsPlain _)
  · exact literal (lineLiteral?_quoted _ _)

/-- A path of one key. -/
theorem keys_encodeKey (name : String) {next : List Char} (noKey : isKeyChar c = false) (ends : endsWord c = true)
    (skipped : dropSpace (c :: rest) = next) (noDot : ∀ tail, next ≠ '.' :: tail) :
    ∃ last : Key, keys (fuel + 1) (encodeKey name.toList ++ c :: rest) = .ok (([], last), next) ∧ last.name = name := by
  obtain ⟨last, read, named⟩ := key_encodeKey name rest noKey ends
  refine ⟨last, ?_, named⟩
  rw [keys, read]
  simp only [bind, Except.bind, skipped]
  rfl

/-! ## Lines -/

/-- A value that can stand behind a key, and what it is read as. -/
structure Written (written : List Char) (given : Value → Prop) : Prop where
  /-- It does not begin with a blank. -/
  start : ∃ d tail, written = d :: tail ∧ isSpace d = false
  /-- It is read up to the end of its line. -/
  read : ∀ rest, ∃ found, given found ∧
    value (2 * (written ++ '\n' :: rest).length + 2) (written ++ '\n' :: rest) = .ok (found, '\n' :: rest)

theorem written_encode (text : String) : Written (encode text.toList) fun found => found.text? = .ok text := by
  obtain ⟨mark, tail, written, isMark⟩ := exists_encode text.toList
  refine ⟨⟨mark, tail, written, by rcases isMark with rfl | rfl <;> decide⟩, fun rest => ?_⟩
  obtain ⟨found, read, given⟩ := value_encode text rest (show endsValue '\n' = true by decide)
  exact ⟨found, given, read⟩

/-- Parts that are not empty make up a list that is at least as long as they are many. -/
theorem length_le_flatMap {α β : Type} {f : α → List β} {parts : List α} (present : ∀ part ∈ parts, f part ≠ []) :
    parts.length ≤ (parts.flatMap f).length := by
  induction parts with
  | nil => exact Nat.le_refl 0
  | cons part others ih =>
    obtain ⟨own, later⟩ := List.forall_mem_cons.mp present
    have positive := List.length_pos_iff.mpr own
    have rest := ih later
    rw [List.flatMap_cons, List.length_append, List.length_cons]
    omega

theorem length_le_encodeTexts (texts : List String) : texts.length ≤ (encodeTexts texts).length := by
  match texts with
  | [] => exact Nat.zero_le _
  | [item] => simp [encodeTexts]
  | first :: second :: others =>
    have present : ∀ item ∈ first :: second :: others, margin ++ encode item.toList ++ [',', '\n'] ≠ [] :=
      fun item _ => List.append_ne_nil_of_right_ne_nil _ (List.cons_ne_nil _ _)
    have long := length_le_flatMap present
    simp only [encodeTexts, List.length_append]
    omega

theorem written_encodeTexts (texts : List String) : Written (encodeTexts texts) fun found => found.texts? = .ok texts := by
  refine ⟨?_, fun rest => ?_⟩
  · match texts with
    | [] => exact ⟨'[', _, rfl, by decide⟩
    | [item] => exact ⟨'[', _, rfl, by decide⟩
    | first :: second :: others => exact ⟨'[', _, rfl, by decide⟩
  · have long := length_le_encodeTexts texts
    obtain ⟨found, read, given⟩ := value_encodeTexts texts rest
      (show texts.length + 2 < 2 * (encodeTexts texts ++ '\n' :: rest).length + 2 by
        simp only [List.length_append, List.length_cons]
        omega)
    exact ⟨found, given, read⟩

theorem written_boolean (flag : Bool) :
    Written (if flag then "true" else "false").toList fun found => found.boolean? = .ok flag := by
  cases flag with
  | true => exact ⟨⟨'t', _, rfl, by decide⟩, fun rest => ⟨.located ("true".toList ++ '\n' :: rest).length (.boolean true), rfl, rfl⟩⟩
  | false => exact ⟨⟨'f', _, rfl, by decide⟩, fun rest => ⟨.located ("false".toList ++ '\n' :: rest).length (.boolean false), rfl, rfl⟩⟩

/-- A line, and what it states. -/
def Line (line : List Char) (given : Statement → Prop) : Prop :=
  ∀ rest, ∃ found, given found ∧
    ∀ fuel, statements (fuel + 1) (line ++ rest) = (statements fuel rest).map (found :: ·)

/-- A statement that puts a value under a key. -/
def Assigns (name : String) (given : Value → Prop) (found : Statement) : Prop :=
  ∃ last value, found = .assign [] last value ∧ last.name = name ∧ given value

/-- A statement that begins a table. -/
def Opens (name : String) (found : Statement) : Prop :=
  ∃ remaining last, found = .table remaining [] last ∧ last.name = name

theorem statements_of_begins {found : Statement} (start : begins c = true)
    (read : statement (c :: cs) = .ok (found, '\n' :: rest)) (fuel : Nat) :
    statements (fuel + 1) (c :: cs) = (statements fuel rest).map (found :: ·) := by
  have ended : endLine ('\n' :: rest) = .ok rest := rfl
  rw [statements, dropLines_of_begins _ start]
  simp only [bind, Except.bind]
  rw [read]
  simp only [ended]
  cases statements fuel rest <;> rfl

theorem line_entryLine {written : List Char} {given : Value → Prop} (name : String) (isWritten : Written written given) :
    Line (entryLine name.toList written) (Assigns name given) := by
  intro rest
  obtain ⟨found, isGiven, read⟩ := isWritten.read rest
  obtain ⟨d, tail, shape, noSpace⟩ := isWritten.start
  obtain ⟨k, more, keyShape, starts, noBracket⟩ := exists_encodeKey name.toList
  have spelled : entryLine name.toList written ++ rest =
      encodeKey name.toList ++ ' ' :: '=' :: ' ' :: (written ++ '\n' :: rest) := by
    simp [entryLine, List.append_assoc]
  have skipped : dropSpace (' ' :: '=' :: ' ' :: (written ++ '\n' :: rest)) = '=' :: ' ' :: (written ++ '\n' :: rest) := rfl
  have skippedLater : dropSpace (' ' :: (written ++ '\n' :: rest)) = written ++ '\n' :: rest := by
    rw [shape]
    exact dropSpace_cons noSpace _
  obtain ⟨length, isLength⟩ : ∃ n, (encodeKey name.toList ++ ' ' :: '=' :: ' ' :: (written ++ '\n' :: rest)).length = n + 1 :=
    ⟨_, by rw [keyShape]; rfl⟩
  obtain ⟨last, keyRead, named⟩ := @keys_encodeKey ' ' _ length name _ (by decide) (by decide) skipped (by simp)
  refine ⟨.assign [] last found, ⟨last, found, rfl, named, isGiven⟩, fun fuel => ?_⟩
  have stated : statement (encodeKey name.toList ++ ' ' :: '=' :: ' ' :: (written ++ '\n' :: rest)) =
      .ok (.assign [] last found, '\n' :: rest) := by
    have noTable : ∀ tail, encodeKey name.toList ++ ' ' :: '=' :: ' ' :: (written ++ '\n' :: rest) ≠ '[' :: tail := by
      intro tail same
      rw [keyShape, List.cons_append] at same
      exact noBracket (List.cons.inj same).1
    unfold statement
    split
    next same => exact absurd same (noTable _)
    next same => exact absurd same (noTable _)
    next =>
      rw [isLength, keyRead]
      simp only [bind, Except.bind, skippedLater, read]
      rfl
  rw [keyShape, List.cons_append] at stated
  rw [spelled, keyShape, List.cons_append]
  exact statements_of_begins starts stated fuel

/-- The heading of a table behind an empty line. -/
def headingLine (name : String) : List Char := '\n' :: '[' :: (encodeKey name.toList ++ [']', '\n'])

theorem line_headingLine (name : String) : Line (headingLine name) (Opens name) := by
  intro rest
  obtain ⟨k, more, keyShape, starts, noBracket⟩ := exists_encodeKey name.toList
  have spelled : headingLine name ++ rest = '\n' :: '[' :: (encodeKey name.toList ++ ']' :: '\n' :: rest) := by
    simp [headingLine, List.append_assoc]
  have skipped : dropSpace (']' :: '\n' :: rest) = ']' :: '\n' :: rest := rfl
  obtain ⟨length, isLength⟩ : ∃ n, (encodeKey name.toList ++ ']' :: '\n' :: rest).length = n + 1 :=
    ⟨_, by rw [keyShape]; rfl⟩
  have skippedKey : dropSpace (encodeKey name.toList ++ ']' :: '\n' :: rest) = encodeKey name.toList ++ ']' :: '\n' :: rest := by
    rw [keyShape]
    exact dropSpace_of_begins starts _
  obtain ⟨last, keyRead, named⟩ := @keys_encodeKey ']' _ length name _ (by decide) (by decide) skipped (by simp)
  have headed : heading 1 (encodeKey name.toList ++ ']' :: '\n' :: rest) = .ok (([], last), '\n' :: rest) := by
    unfold heading
    rw [skippedKey, isLength, keyRead]
    rfl
  have stated : statement ('[' :: (encodeKey name.toList ++ ']' :: '\n' :: rest)) =
      .ok (.table ('[' :: (encodeKey name.toList ++ ']' :: '\n' :: rest)).length [] last, '\n' :: rest) := by
    unfold statement
    split
    next same =>
      rw [keyShape] at same
      exact absurd (List.cons.inj (List.cons.inj same).2).1 noBracket
    next same =>
      rw [← (List.cons.inj same).2, headed]
      rfl
    next noTable => exact absurd rfl (noTable _)
  refine ⟨.table ('[' :: (encodeKey name.toList ++ ']' :: '\n' :: rest)).length [] last, ⟨_, last, rfl, named⟩, fun fuel => ?_⟩
  have goes := statements_of_begins (show begins '[' = true by decide) stated fuel
  rw [spelled, ← goes, statements, statements, List.length_cons, dropLines_break, dropLines_of_begins _ (by decide)]

/-- What corresponds to two lists in a row comes in two parts. -/
theorem exists_of_forall₂_append {α β : Type} {R : α → β → Prop} {a b : List α} {c : List β}
    (related : List.Forall₂ R (a ++ b) c) : ∃ x y, c = x ++ y ∧ List.Forall₂ R a x ∧ List.Forall₂ R b y := by
  have left := List.forall₂_take a.length related
  have right := List.forall₂_drop a.length related
  rw [List.take_left] at left
  rw [List.drop_left] at right
  exact ⟨c.take a.length, c.drop a.length, (List.take_append_drop _ _).symm, left, right⟩

/-- Lines are read one after the other. -/
theorem statements_lines {lines : List (List Char × (Statement → Prop))} (stated : ∀ line ∈ lines, Line line.1 line.2)
    {fuel : Nat} (enough : lines.length ≤ fuel) :
    ∃ found, statements fuel (lines.flatMap Prod.fst) = .ok found ∧ List.Forall₂ (fun line s => line.2 s) lines found := by
  induction lines generalizing fuel with
  | nil =>
    refine ⟨[], ?_, .nil⟩
    cases fuel <;> rfl
  | cons line others ih =>
    obtain ⟨own, later⟩ := List.forall_mem_cons.mp stated
    obtain ⟨fuel, rfl⟩ : ∃ k, fuel = k + 1 := ⟨fuel - 1, by simp only [List.length_cons] at enough; omega⟩
    obtain ⟨first, isGiven, goes⟩ := own (others.flatMap Prod.fst)
    obtain ⟨found, read, given⟩ := ih later (show others.length ≤ fuel by simpa using enough)
    refine ⟨first :: found, ?_, .cons isGiven given⟩
    rw [List.flatMap_cons, goes, read]
    rfl

/-! ## The tree -/

section tree

variable {entries front : Entries} {last : Key} {node : Node} {name : String} {remaining : Nat} {origin : Origin}

theorem lookup_append_single (absent : front.lookup name = none) (node : Node) :
    (front ++ [(name, node)]).lookup name = some node := by
  rw [List.lookup_append, absent]
  simp [List.lookup]

theorem setEntry_append_single (absent : front.lookup name = none) (old node : Node) :
    setEntry (front ++ [(name, old)]) name node = front ++ [(name, node)] := by
  induction front with
  | nil => simp [setEntry]
  | cons entry front ih =>
    obtain ⟨other, held⟩ := entry
    have differs : (other == name) = false ∧ front.lookup name = none := by
      rw [List.lookup_cons] at absent
      split at absent
      next => cases absent
      next differs => exact ⟨beq_eq_false_iff_ne.mpr (beq_eq_false_iff_ne.mp differs).symm, absent⟩
    rw [List.cons_append, setEntry, if_neg (by simp [differs.1]), ih differs.2, List.cons_append]

theorem lookup_eq_none_of_not_mem (absent : name ∉ entries.map Prod.fst) : entries.lookup name = none := by
  rw [List.lookup_eq_none_iff]
  intro entry member
  rw [bne_iff_ne]
  rintro rfl
  exact absent (List.mem_map_of_mem member)

/-- A value under a new key comes last. -/
theorem assign_of_not_mem (absent : last.name ∉ entries.map Prod.fst) :
    assign entries [] last node = .ok (entries ++ [(last.name, node)]) := by
  rw [assign, lookup_eq_none_of_not_mem absent]
  rfl

theorem within_append_single (absent : name ∉ front.map Prod.fst) (inner : Entries)
    (change : Entries → Except Fault Entries) :
    within (front ++ [(name, .table remaining origin inner)]) change [name] =
      (change inner).map fun inner => front ++ [(name, .table remaining origin inner)] := by
  have unknown := lookup_eq_none_of_not_mem absent
  rw [within, lookup_append_single unknown]
  simp only [within]
  cases change inner with
  | error fault => rfl
  | ok changed =>
    simp only [bind, Except.bind, setEntry_append_single unknown]
    rfl

/-- A field, as it is written and as it is read. -/
structure Field where
  /-- Its key. -/
  name : String
  /-- Its value as it is written. -/
  written : List Char
  /-- What its value is read as. -/
  given : Value → Prop

/-- The line of a field. -/
def Field.line (field : Field) : List Char := entryLine field.name.toList field.written

/-- An entry holds what a field gives. -/
def Field.Holds (field : Field) (entry : String × Node) : Prop :=
  entry.1 = field.name ∧ ∃ found, entry.2 = .value found ∧ field.given found

/-- A value that is read under the key of a field is what the field gives. -/
def Field.Gives (field : Field) (entry : String × Value) : Prop := entry.1 = field.name ∧ field.given entry.2

/-- Values under different keys go where a path leads, one after the other. -/
theorem build_assigns {path : List String} {place : Entries → Entries}
    (reaches : ∀ inner change, within (place inner) change path = (change inner).map place) {fields : List Field}
    {found : List Statement} (given : List.Forall₂ (fun field s => Assigns field.name field.given s) fields found)
    (more : List Statement) {inner : Entries} (distinct : (inner.map Prod.fst ++ fields.map Field.name).Nodup) :
    ∃ added, List.Forall₂ Field.Holds fields added ∧
      build (found ++ more) path (place inner) = build more path (place (inner ++ added)) := by
  induction given generalizing inner with
  | nil => exact ⟨[], .nil, by rw [List.append_nil, List.nil_append]⟩
  | @cons field s fields found isGiven _ ih =>
    obtain ⟨last, value, rfl, named, own⟩ := isGiven
    have absent : last.name ∉ inner.map Prod.fst := by
      rw [named]
      intro member
      exact (List.disjoint_of_nodup_append distinct) member (by simp)
    have distinctLater : ((inner ++ [(last.name, Node.value value)]).map Prod.fst ++ fields.map Field.name).Nodup := by
      simpa [named, List.append_assoc] using distinct
    obtain ⟨added, holds, goes⟩ := ih distinctLater
    refine ⟨(last.name, .value value) :: added, .cons ⟨named, value, rfl, own⟩ holds, ?_⟩
    rw [List.cons_append, build, reaches, assign_of_not_mem absent]
    change build (found ++ more) path (place (inner ++ [(last.name, .value value)])) = _
    rw [goes, List.append_assoc, List.singleton_append]

/-- The values of the fields that entries hold. -/
theorem toValues_of_holds {fields : List Field} (holds : List.Forall₂ Field.Holds fields entries) :
    List.Forall₂ Field.Gives fields (toValues entries) := by
  induction holds with
  | nil => exact .nil
  | @cons field entry _ _ own _ ih =>
    obtain ⟨name, node⟩ := entry
    obtain ⟨named, found, rfl, given⟩ := own
    exact .cons ⟨named, given⟩ ih

theorem map_fst_of_holds {fields : List Field} (holds : List.Forall₂ Field.Holds fields entries) :
    entries.map Prod.fst = fields.map Field.name := by
  induction holds with
  | nil => rfl
  | cons own _ ih => rw [List.map_cons, List.map_cons, own.1, ih]

theorem dropMark_of_head? (unmarked : cs.head? ≠ some '\ufeff') : dropMark cs = cs := by
  unfold dropMark
  split
  next => exact absurd rfl unmarked
  next => rfl

theorem toValues_append (entries others : Entries) : toValues (entries ++ others) = toValues entries ++ toValues others := by
  induction entries with
  | nil => rfl
  | cons entry entries ih =>
    obtain ⟨name, node⟩ := entry
    rw [List.cons_append, toValues, toValues, ih, List.cons_append]

/-- The lines of fields, and what they state. -/
def fieldLines (fields : List Field) : List (List Char × (Statement → Prop)) :=
  fields.map fun field => (field.line, Assigns field.name field.given)

theorem stated_fieldLines {fields : List Field} (written : ∀ field ∈ fields, Written field.written field.given) :
    ∀ line ∈ fieldLines fields, Line line.1 line.2 ∧ line.1 ≠ [] := by
  intro line member
  obtain ⟨field, isField, rfl⟩ := List.mem_map.mp member
  exact ⟨line_entryLine field.name (written field isField), by simp [Field.line, entryLine]⟩

/-- What a document of lines states is found, whatever its length: each line takes a character. -/
theorem statements_document {lines : List (List Char × (Statement → Prop))}
    (stated : ∀ line ∈ lines, Line line.1 line.2 ∧ line.1 ≠ []) :
    ∃ found, statements ((lines.flatMap Prod.fst).length + 1) (lines.flatMap Prod.fst) = .ok found ∧
      List.Forall₂ (fun line s => line.2 s) lines found := by
  have enough := length_le_flatMap fun line member => (stated line member).2
  exact statements_lines (fun line member => (stated line member).1) (by omega)

/-- Values under different keys, a table, and values under different keys in it. -/
theorem build_fields {outer inner : List Field} {table : String} {above below : List Statement} {opens : Statement}
    (distinct : (outer.map Field.name ++ [table]).Nodup) (distinctInner : (inner.map Field.name).Nodup)
    (givenAbove : List.Forall₂ (fun field s => Assigns field.name field.given s) outer above) (opening : Opens table opens)
    (givenBelow : List.Forall₂ (fun field s => Assigns field.name field.given s) inner below) :
    ∃ outside remaining inside, List.Forall₂ Field.Holds outer outside ∧ List.Forall₂ Field.Holds inner inside ∧
      build (above ++ opens :: below) [] [] = .ok (outside ++ [(table, .table remaining .heading inside)]) := by
  obtain ⟨remaining, last, rfl, rfl⟩ := opening
  have root : ∀ inner change, within (id inner) change [] = (change inner).map id := by
    intro inner change
    rw [within, id]
    cases change inner <;> rfl
  have distinctOuter : (([] : Entries).map Prod.fst ++ outer.map Field.name).Nodup := (List.nodup_append.mp distinct).1
  obtain ⟨outside, holdsOutside, builtOutside⟩ :=
    build_assigns root givenAbove (.table remaining [] last :: below) distinctOuter
  have absent : last.name ∉ outside.map Prod.fst := by
    rw [map_fst_of_holds holdsOutside]
    exact fun member => List.disjoint_of_nodup_append distinct member List.mem_cons_self
  have nested : ∀ inner change, within (outside ++ [(last.name, .table remaining .heading inner)]) change [last.name] =
      (change inner).map fun inner => outside ++ [(last.name, .table remaining .heading inner)] :=
    within_append_single absent
  have distinctBelow : (([] : Entries).map Prod.fst ++ inner.map Field.name).Nodup := distinctInner
  obtain ⟨inside, holdsInside, builtInside⟩ := build_assigns nested givenBelow [] distinctBelow
  have opened : build (.table remaining [] last :: below) [] outside =
      build below [last.name] (outside ++ [(last.name, .table remaining .heading [])]) := by
    rw [build, descend, openTable, lookup_eq_none_of_not_mem absent]
    rfl
  rw [List.append_nil] at builtInside
  exact ⟨outside, remaining, inside, holdsOutside, holdsInside, builtOutside.trans (opened.trans builtInside)⟩

/-- Fields with a table of more fields at the end are read as they were written. -/
theorem read_fields {outer inner : List Field} {table : String} (written : ∀ field ∈ outer ++ inner, Written field.written field.given)
    (distinct : (outer.map Field.name ++ [table]).Nodup) (distinctInner : (inner.map Field.name).Nodup) {text : String}
    (spelled : text.toList = outer.flatMap Field.line ++ headingLine table ++ inner.flatMap Field.line)
    (unmarked : text.toList.head? ≠ some '\ufeff') :
    ∃ values remaining innerValues, read text = .ok (.table (values ++ [(table, .located remaining (.table innerValues))])) ∧
      List.Forall₂ Field.Gives outer values ∧
      List.Forall₂ Field.Gives inner innerValues := by
  have whole : (fieldLines outer ++ (headingLine table, Opens table) :: fieldLines inner).flatMap Prod.fst = text.toList := by
    simp [fieldLines, spelled, List.flatMap_map, List.append_assoc]
  have stated : ∀ line ∈ fieldLines outer ++ (headingLine table, Opens table) :: fieldLines inner,
      Line line.1 line.2 ∧ line.1 ≠ [] := by
    rw [List.forall_mem_append] at written ⊢
    exact ⟨stated_fieldLines written.1, List.forall_mem_cons.mpr
      ⟨⟨line_headingLine table, List.cons_ne_nil _ _⟩, stated_fieldLines written.2⟩⟩
  obtain ⟨found, stating, given⟩ := statements_document stated
  rw [whole] at stating
  obtain ⟨above, rest, rfl, givenAbove, givenRest⟩ := exists_of_forall₂_append given
  cases givenRest with
  | @cons _ opens _ below opening givenBelow =>
    rw [fieldLines, List.forall₂_map_left_iff] at givenAbove givenBelow
    obtain ⟨outside, remaining, inside, holdsOutside, holdsInside, built⟩ :=
      build_fields distinct distinctInner givenAbove opening givenBelow
    refine ⟨toValues outside, remaining, toValues inside, ?_, toValues_of_holds holdsOutside, toValues_of_holds holdsInside⟩
    unfold read
    rw [dropMark_of_head? unmarked]
    simp only [bind, Except.bind, stating, built, toValues_append]
    rfl

end tree

end Galley.Toml
