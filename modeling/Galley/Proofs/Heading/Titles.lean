import Galley.Heading.Title
import Galley.Proofs.Heading.Entries

/-!
# Titles and headings

The title of a document is looked for in its whole text, and the blanks behind the sign of a heading may be line feeds. The
table of contents goes line by line and leaves out fenced code. Where the first line that looks like a top heading is one, both
agree.

* `isMarked`, `titleLine?` — the lines that titles are taken from, and `titleOf_eq_titleLine?`;
* `safeTitle`, `titleOfEntries` — a text as a title, and the title that a table of contents gives;
* `isTop`, `any_ofLine?_eq` — which lines give entries at the top;
* `TitledByHeading` — the first line with the sign of a top heading is a heading outside of code;
* `title_is_of_first_marked_line` — the title of a document, and when it is the one of its table of contents;
* `fenced_line_is_title`, `line_behind_sign_is_title` — when it is not.
-/

namespace Galley.Heading

open Galley.Source (PlacedLine placedLines fencedZones linesOutside)
open Galley.Text (FullLines isBlank isBlankText trimStart)

variable {cs text front back line rest : List Char} {lines : List (List Char)} {c : Char}

/-! ## Texts as titles -/

/-- A text as a title: with a space for each character that is refused in file names, and without blanks at its ends. -/
def safeTitle (text : List Char) : String :=
  let title := Text.trim (text.map fun c => if isHostile c then ' ' else c)
  if title.isEmpty then untitled else .ofList title

theorem titleOf_eq (source : String) : titleOf source = ((titleText? source).map safeTitle).getD untitled := by
  unfold titleOf
  cases titleText? source <;> rfl

theorem blank_of_mem_map (blank : ∀ c ∈ cs, isBlank c = true) :
    ∀ c ∈ cs.map (fun c => if isHostile c then ' ' else c), isBlank c = true := by
  intro d member
  obtain ⟨c, inside, rfl⟩ := List.mem_map.mp member
  split
  · rfl
  · exact blank c inside

/-- Blanks around a text do not matter for the title. -/
theorem safeTitle_between (blank : ∀ c ∈ front, isBlank c = true) (blank' : ∀ c ∈ back, isBlank c = true) :
    safeTitle (front ++ (text ++ back)) = safeTitle text := by
  unfold safeTitle
  rw [List.map_append, List.map_append, Text.trim_append_left (blank_of_mem_map blank),
    Text.trim_append _ (blank_of_mem_map blank')]

theorem safeTitle_trim (text : List Char) : safeTitle (Text.trim text) = safeTitle text := by
  obtain ⟨front, back, whole, blank, blank'⟩ := Text.exists_trim text
  conv => rhs; rw [whole]
  exact (safeTitle_between blank blank').symm

/-! ## The lines of titles -/

/-- A line that begins with `#` and a blank. The end of a line is a blank. -/
def isMarked : List Char → Bool
  | '#' :: c :: _ => isBlank c
  | _ => false

/-- The line that a title is taken from: what stands behind the sign in the first marked line or, if that is blank, the first
    line behind it that is not. The lines have their ends. -/
def titleLine? : List (List Char) → Option (List Char)
  | [] => none
  | line :: rest =>
    if isMarked line then (line.tail :: rest).find? fun line => !isBlankText line else titleLine? rest

theorem isMarked_cons (c : Char) (rest : List Char) :
    isMarked (c :: rest) = (c == '#' && (rest.head?.map isBlank).getD false) := by
  cases rest with
  | nil => simp [isMarked]
  | cons d rest => by_cases sign : c = '#' <;> simp [isMarked, sign]

theorem titleTextFrom?_of_plain {atLineStart : Bool} (plain : atLineStart = true → isMarked (c :: rest) = false) :
    titleTextFrom? atLineStart (c :: rest) = titleTextFrom? (c == '\n') rest := by
  have missed : (atLineStart && isMarked (c :: rest)) = false := by
    cases atLineStart with
    | true => exact plain rfl
    | false => rfl
  rw [isMarked_cons, ← Bool.and_assoc] at missed
  rw [titleTextFrom?, missed]

theorem titleTextFrom?_false (c : Char) (rest : List Char) :
    titleTextFrom? false (c :: rest) = titleTextFrom? (c == '\n') rest :=
  titleTextFrom?_of_plain (by simp)

/-- In the middle of a line no title begins. -/
theorem titleTextFrom?_behind (plain : '\n' ∉ line) (rest : List Char) :
    titleTextFrom? false (line ++ '\n' :: rest) = titleTextFrom? true rest ∧ titleTextFrom? false line = none := by
  induction line with
  | nil => exact ⟨titleTextFrom?_false _ _, rfl⟩
  | cons c line ih =>
    rw [List.mem_cons, not_or] at plain
    have other : (c == '\n') = false := beq_false_of_ne (Ne.symm plain.1)
    rw [List.cons_append, titleTextFrom?_false, titleTextFrom?_false, other]
    exact ih plain.2

theorem titleTextFrom?_of_blank (blank : ∀ c ∈ cs, isBlank c = true) (atLineStart : Bool) :
    titleTextFrom? atLineStart cs = none := by
  induction cs generalizing atLineStart with
  | nil => rfl
  | cons c rest ih =>
    obtain ⟨first, others⟩ := List.forall_mem_cons.mp blank
    have noSign : c ≠ '#' := by
      rintro rfl
      cases first
    rw [titleTextFrom?_of_plain fun _ => by simp [isMarked_cons, noSign], ih others]

theorem titleTextFrom?_of_marked (marked : isMarked (c :: rest) = true) {first : Char} {more : List Char}
    (behind : trimStart rest = first :: more) :
    titleTextFrom? true (c :: rest) = some ((first :: more).takeWhile (· != '\n')) := by
  rw [isMarked_cons] at marked
  rw [titleTextFrom?, Bool.true_and, marked, behind]

theorem safeTitle_trimStart (text : List Char) : safeTitle (trimStart text) = safeTitle text := by
  have same : safeTitle (text.takeWhile isBlank ++ (trimStart text ++ [])) = safeTitle (trimStart text) :=
    safeTitle_between (fun c member => List.mem_takeWhile_imp member) (by simp)
  rw [List.append_nil, trimStart, List.takeWhile_append_dropWhile] at same
  exact same.symm

theorem safeTitle_append (text : List Char) (blank : ∀ c ∈ back, isBlank c = true) :
    safeTitle (text ++ back) = safeTitle text := by
  have same : safeTitle ([] ++ (text ++ back)) = safeTitle text := safeTitle_between (by simp) blank
  exact same

theorem isBlankText_iff : isBlankText cs = true ↔ trimStart cs = [] := by
  rw [trimStart, List.dropWhile_eq_nil_iff, isBlankText, List.all_eq_true]

/-- From a line on that is not blank, what is read ends with the line. -/
theorem text_of_line (plain : '\n' ∉ line) (filled : isBlankText line = false) (rest : List Char) :
    ∃ first more, trimStart line = first :: more ∧ trimStart (line ++ '\n' :: rest) = (first :: more) ++ '\n' :: rest ∧
      ((first :: more) ++ '\n' :: rest).takeWhile (· != '\n') = first :: more ∧
      (first :: more).takeWhile (· != '\n') = first :: more := by
  rw [← Bool.not_eq_true, isBlankText_iff] at filled
  obtain ⟨first, more, begins⟩ := List.exists_cons_of_ne_nil filled
  have inside : '\n' ∉ first :: more := fun member => plain ((List.dropWhile_suffix _).mem (begins ▸ member))
  have all := Text.bne_of_not_mem inside
  refine ⟨first, more, begins, ?_, Text.takeWhile_exact all (bne_self_eq_false '\n') rest, List.takeWhile_eq_self_iff.mpr all⟩
  rw [trimStart, List.dropWhile_append, ← trimStart, begins]
  rfl

/-- What is read from some lines on is the first of them that is not blank. -/
theorem text_of_lines (full : FullLines lines) :
    (lines.find? (fun line => !isBlankText line) = none ∧ isBlankText lines.flatten = true) ∨
    ∃ line first more, lines.find? (fun line => !isBlankText line) = some line ∧ trimStart lines.flatten = first :: more ∧
      safeTitle ((first :: more).takeWhile (· != '\n')) = safeTitle line := by
  -- Induction on the lines: blanks go on over the end of a blank line, and what is read ends with its line.
  induction full with
  | nil => exact .inl ⟨rfl, rfl⟩
  | @last line _ plain =>
    rw [List.flatten_cons, List.flatten_nil, List.append_nil]
    cases blank : isBlankText line with
    | true => exact .inl ⟨by rw [List.find?_cons_of_neg (by simp [blank]), List.find?_nil], rfl⟩
    | false =>
      obtain ⟨first, more, begins, -, -, whole⟩ := text_of_line plain blank []
      refine .inr ⟨line, first, more, List.find?_cons_of_pos (by simp [blank]), begins, ?_⟩
      rw [whole, ← begins, safeTitle_trimStart]
  | @cons line rest plain more ih =>
    have ends : ∀ c ∈ ['\n'], isBlank c = true := by simp [isBlank]
    have same : isBlankText (line ++ ['\n']) = isBlankText line := by simp [isBlankText, isBlank]
    cases blank : isBlankText line with
    | true =>
      have skipped : trimStart ((line ++ ['\n']) :: rest).flatten = trimStart rest.flatten := by
        rw [List.flatten_cons, trimStart, List.dropWhile_append_of_pos]
        · rfl
        · exact List.all_eq_true.mp (same.trans blank)
      rw [List.find?_cons_of_neg (by simp [same, blank]), isBlankText_iff, skipped, ← isBlankText_iff]
      exact ih
    | false =>
      obtain ⟨first, more, begins, behind, whole, -⟩ := text_of_line plain blank rest.flatten
      refine .inr ⟨line ++ ['\n'], first, more ++ '\n' :: rest.flatten, List.find?_cons_of_pos (by simp [same, blank]), ?_, ?_⟩
      · rw [List.flatten_cons, List.append_assoc]
        exact behind
      · rw [← List.cons_append, whole, ← begins, safeTitle_trimStart, safeTitle_append _ ends]

theorem titleTextFrom?_of_bare {atLineStart : Bool} (behind : trimStart rest = []) :
    titleTextFrom? atLineStart (c :: rest) = titleTextFrom? (c == '\n') rest := by
  rw [titleTextFrom?, behind]
  split
  next empty => cases empty
  next => rfl

theorem isMarked_append (filled : rest ≠ []) (back : List Char) : isMarked (c :: (rest ++ back)) = isMarked (c :: rest) := by
  rw [isMarked_cons, isMarked_cons, List.head?_append_of_ne_nil _ filled]

/-- From a marked line on, the first text is read that is not blank. -/
theorem titleTextFrom?_marked {later : List (List Char)} (full : FullLines (rest :: later)) (filled : rest ≠ [])
    (marked : isMarked (c :: rest) = true) :
    (titleTextFrom? true (c :: (rest ++ later.flatten))).map safeTitle =
      ((rest :: later).find? fun line => !isBlankText line).map safeTitle := by
  rw [← isMarked_append filled later.flatten] at marked
  rcases text_of_lines full with ⟨missing, blank⟩ | ⟨line, first, more, found, begins, same⟩
  · rw [List.flatten_cons] at blank
    rw [missing, titleTextFrom?_of_bare (isBlankText_iff.mp blank), titleTextFrom?_of_blank (List.all_eq_true.mp blank),
      Option.map_none]
  · rw [List.flatten_cons] at begins
    rw [found, titleTextFrom?_of_marked marked begins, Option.map_some, Option.map_some, same]

/-- What is read in a whole text is what the lines of titles say. -/
theorem titleTextFrom?_flatten (full : FullLines lines) :
    (titleTextFrom? true lines.flatten).map safeTitle = (titleLine? lines).map safeTitle := by
  induction full with
  | nil => rfl
  | @last line some plain =>
    obtain ⟨c, rest, rfl⟩ := List.exists_cons_of_ne_nil some
    rw [List.mem_cons, not_or] at plain
    cases marked : isMarked (c :: rest) with
    | true =>
      have filled : rest ≠ [] := by
        rintro rfl
        simp [isMarked_cons] at marked
      have read := titleTextFrom?_marked (.last filled plain.2) filled marked
      rw [titleLine?, if_pos marked]
      exact read
    | false =>
      rw [titleLine?, marked, List.flatten_cons, List.flatten_nil, List.append_nil,
        titleTextFrom?_of_plain fun _ => marked, beq_false_of_ne (Ne.symm plain.1), (titleTextFrom?_behind plain.2 []).2]
      rfl
  | @cons line rest plain more ih =>
    rw [List.flatten_cons, titleLine?]
    cases line with
    | nil =>
      -- a line without anything but its end
      rw [List.nil_append, List.singleton_append, titleTextFrom?_of_plain fun _ => by simp [isMarked_cons]]
      exact ih
    | cons c tail =>
      rw [List.mem_cons, not_or] at plain
      have filled : tail ++ ['\n'] ≠ [] := by simp
      rw [List.cons_append, List.cons_append]
      cases marked : isMarked (c :: (tail ++ ['\n'])) with
      | true => exact titleTextFrom?_marked (.cons plain.2 more) filled marked
      | false =>
        have unmarked := (isMarked_append filled rest.flatten).trans marked
        rw [titleTextFrom?_of_plain fun _ => unmarked, beq_false_of_ne (Ne.symm plain.1), List.append_assoc,
          List.singleton_append, (titleTextFrom?_behind plain.2 _).1, ih, if_neg Bool.false_ne_true]

theorem titleOf_eq_titleLine? (source : String) :
    titleOf source = ((titleLine? (Text.linesWithEnds source.toList)).map safeTitle).getD untitled := by
  rw [titleOf_eq, titleText?, ← titleTextFrom?_flatten (Text.fullLines_linesWithEnds _), Text.flatten_linesWithEnds]

/-! ## Entries at the top -/

variable {entry : ContentsEntry}

/-- The entry of a line at the top is the one of a marked line, and it makes the title that the line makes. -/
theorem marked_of_top (read : ContentsEntry.ofLine? (Text.dropLineEnd line) = some entry) (top : entry.level = 1) :
    isMarked line = true ∧ isBlankText line.tail = false ∧
      safeTitle entry.text.toList = safeTitle line.tail := by
  obtain ⟨⟨text, ⟨-, -, blanks, some, blank, written⟩, filled, same⟩, -⟩ := entryOf_iff.mp read
  obtain ⟨back, whole, ends⟩ := Text.dropLineEnd_append line
  obtain ⟨b, others, rfl⟩ := List.exists_cons_of_ne_nil some
  have backBlank : ∀ c ∈ back, isBlank c = true := by
    intro c member
    rcases ends c member with rfl | rfl <;> rfl
  rw [top, List.replicate_one, List.singleton_append] at written
  rw [written, List.cons_append, List.append_assoc] at whole
  have behind : line.tail = b :: others ++ (text ++ back) := by rw [whole, List.tail_cons]
  refine ⟨?_, ?_, ?_⟩
  · rw [whole]
    exact blank b List.mem_cons_self
  · simp only [isBlankText, List.all_eq_false] at filled ⊢
    obtain ⟨c, member, other⟩ := filled
    exact ⟨c, by simp [behind, member], other⟩
  · rw [behind, safeTitle_between blank backBlank, same, String.toList_ofList, safeTitle_trim]

/-- The end of a line is blank, so the text of a marked line begins in front of it. -/
theorem dropLineEnd_of_marked (marked : isMarked line = true) (filled : isBlankText line.tail = false) :
    ∃ b text, Text.dropLineEnd line = '#' :: b :: text ∧ isBlank b = true ∧ isBlankText text = false := by
  obtain ⟨back, whole, ends⟩ := Text.dropLineEnd_append line
  have backBlank : isBlankText back = true := by
    rw [isBlankText, List.all_eq_true]
    intro c member
    rcases ends c member with rfl | rfl <;> rfl
  rcases inside : Text.dropLineEnd line with _ | ⟨sign, _ | ⟨b, text⟩⟩
  · rw [inside, List.nil_append] at whole
    have blank : isBlankText line.tail = true :=
      List.all_eq_true.mpr fun c member => List.all_eq_true.mp backBlank c (whole ▸ List.mem_of_mem_tail member)
    rw [blank] at filled
    cases filled
  · rw [inside, List.singleton_append] at whole
    rw [whole, List.tail_cons, backBlank] at filled
    cases filled
  · rw [inside, List.cons_append, List.cons_append] at whole
    rw [whole, isMarked_cons, List.head?_cons, Bool.and_eq_true, beq_iff_eq] at marked
    obtain ⟨rfl, blank : isBlank b = true⟩ := marked
    rw [whole, List.tail_cons, isBlankText, List.all_cons, List.all_append, ← isBlankText, ← isBlankText, backBlank, blank,
      Bool.and_true, Bool.true_and] at filled
    exact ⟨b, text, rfl, blank, filled⟩

/-- A marked line whose text is not blank gives an entry at the top. -/
theorem top_of_marked (marked : isMarked line = true) (filled : isBlankText line.tail = false) :
    ∃ entry, ContentsEntry.ofLine? (Text.dropLineEnd line) = some entry ∧ entry.level = 1 := by
  obtain ⟨b, text, inside, blank, filled⟩ := dropLineEnd_of_marked marked filled
  have heading : IsHeading ('#' :: b :: text) 1 text :=
    ⟨Nat.le_refl 1, by decide, [b], by simp, by simpa using blank, rfl⟩
  let title := String.ofList (Text.trim text)
  rw [inside]
  exact ⟨⟨1, title, anchorOf title⟩, entryOf_iff.mpr ⟨⟨text, heading, filled, rfl⟩, rfl⟩, rfl⟩

/-- The entries of a document are those of its lines outside of the fenced blocks. -/
theorem contents_eq (source : String) : contents source = (linesOutside (fencedZones source) (placedLines source)).filterMap
    fun line => ContentsEntry.ofLine? (Text.dropLineEnd line.chars) := by
  have found : Source.FencesFrom source.utf8ByteSize (placedLines source) (fencedZones source) :=
    Source.fencesFrom_fencedZonesFrom _ _
  have walk := contentsFrom_eq found (Source.linesFrom_placedLines source)
  rwa [map_placedLines] at walk

/-- The title that some entries give: the text of the first one at the top. -/
def titleOfEntries (entries : List ContentsEntry) : String :=
  ((entries.find? fun entry => entry.level == 1).map fun entry => safeTitle entry.text.toList).getD untitled

/-- A line gives an entry at the top. -/
def isTop (line : List Char) : Bool := isMarked line && !isBlankText line.tail

theorem any_ofLine?_eq (line : List Char) :
    ((ContentsEntry.ofLine? (Text.dropLineEnd line)).any fun entry => entry.level == 1) = isTop line := by
  rw [Bool.eq_iff_iff, isTop, Bool.and_eq_true, Bool.not_eq_true', Option.any_eq_true]
  constructor
  · rintro ⟨entry, read, top⟩
    obtain ⟨marked, filled, -⟩ := marked_of_top read (by simpa using top)
    exact ⟨marked, filled⟩
  · rintro ⟨marked, filled⟩
    obtain ⟨entry, read, top⟩ := top_of_marked marked filled
    exact ⟨entry, read, by simpa using top⟩

/-- The title of a table of contents is the one of the first line outside of the fenced blocks that gives an entry at the
    top. -/
theorem titleOfEntries_contents (source : String) : titleOfEntries (contents source) =
    (((placedLines source).find? fun line => decide (line.IsOutside (fencedZones source)) && isTop line.chars).map
      fun line => safeTitle line.chars.tail).getD untitled := by
  unfold titleOfEntries
  rw [contents_eq, List.find?_filterMap, linesOutside, List.find?_filter]
  simp only [any_ofLine?_eq, Bool.decide_and, Bool.decide_eq_true]
  cases found : (placedLines source).find? fun line => decide (line.IsOutside (fencedZones source)) && isTop line.chars with
  | none => rfl
  | some line =>
    have top := List.find?_some found
    simp only [isTop, Bool.and_eq_true, Bool.not_eq_true'] at top
    obtain ⟨entry, read, level⟩ := top_of_marked top.2.1 top.2.2
    rw [Option.bind_some, read, Option.map_some, Option.map_some, (marked_of_top read level).2.2]

/-! ## When both agree -/

/-- The first marked line of a document with those behind it. -/
def markedLines (source : String) : List PlacedLine := (placedLines source).dropWhile fun line => !isMarked line.chars

/-- The first marked line of a document is a heading outside of code, or nothing but blanks follows its sign. -/
def TitledByHeading (source : String) : Prop :=
  match markedLines source with
  | [] => True
  | line :: rest =>
    (line.IsOutside (fencedZones source) ∧ isBlankText line.chars.tail = false) ∨
      ∀ behind ∈ line.chars.tail :: rest.map PlacedLine.chars, isBlankText behind = true

instance decidableTitledByHeading (source : String) : Decidable (TitledByHeading source) := by
  unfold TitledByHeading
  split <;> infer_instance

theorem map_chars_placedLines (source : String) :
    (placedLines source).map PlacedLine.chars = Text.linesWithEnds source.toList := by
  unfold placedLines
  -- Where the lines stand is of no matter.
  generalize 0 = offset
  induction Text.linesWithEnds source.toList generalizing offset with
  | nil => rfl
  | cons line rest ih => rw [placedLines.go, List.map_cons, ih]

/-- The line of the title is looked for from the first marked line on. -/
theorem titleLine?_map (placed : List PlacedLine) : titleLine? (placed.map PlacedLine.chars) =
    match placed.dropWhile fun line => !isMarked line.chars with
    | [] => none
    | line :: rest => (line.chars.tail :: rest.map PlacedLine.chars).find? fun behind => !isBlankText behind := by
  induction placed with
  | nil => rfl
  | cons line rest ih =>
    rw [List.map_cons, titleLine?]
    cases marked : isMarked line.chars with
    | true => rw [List.dropWhile_cons_of_neg (by simp [marked]), if_pos rfl]
    | false => rw [List.dropWhile_cons_of_pos (by simp [marked]), if_neg Bool.false_ne_true, ih]

/-- So is the first line that gives an entry at the top. -/
theorem find?_dropWhile {α : Type} {skipped found : α → Bool} (apart : ∀ a, skipped a = true → found a = false) (as : List α) :
    (as.dropWhile skipped).find? found = as.find? found := by
  induction as with
  | nil => rfl
  | cons a as ih =>
    cases skip : skipped a with
    | true => rw [List.dropWhile_cons_of_pos skip, List.find?_cons_of_neg (by simp [apart a skip]), ih]
    | false => rw [List.dropWhile_cons_of_neg (by simp [skip])]

theorem isMarked_of_blank (blank : isBlankText line = true) : isMarked line = false := by
  cases line with
  | nil => rfl
  | cons c rest =>
    rw [isBlankText, List.all_cons, Bool.and_eq_true] at blank
    have noSign : c ≠ '#' := by
      rintro rfl
      cases blank.1
    simp [isMarked_cons, noSign]

theorem TitledByHeading.titleOf_eq {source : String} (titled : TitledByHeading source) :
    titleOf source = titleOfEntries (contents source) := by
  have apart (line : PlacedLine) (plain : (!isMarked line.chars) = true) :
      (decide (line.IsOutside (fencedZones source)) && isTop line.chars) = false := by
    rw [Bool.not_eq_true'] at plain
    rw [isTop, plain, Bool.false_and, Bool.and_false]
  rw [titleOf_eq_titleLine?, ← map_chars_placedLines, titleLine?_map, titleOfEntries_contents, ← find?_dropWhile apart]
  unfold TitledByHeading markedLines at titled
  cases marked : (placedLines source).dropWhile fun line => !isMarked line.chars with
  | nil => rfl
  | cons line rest =>
    have first : isMarked line.chars = true := by
      have stops := List.head?_dropWhile_not (fun line : PlacedLine => !isMarked line.chars) (placedLines source)
      rw [marked] at stops
      simpa using stops
    rw [marked] at titled
    simp only at titled ⊢
    rcases titled with ⟨outside, filled⟩ | blank
    · rw [List.find?_cons_of_pos (by simp [filled]), List.find?_cons_of_pos (by simp [outside, isTop, first, filled])]
      rfl
    · obtain ⟨bare, others⟩ := List.forall_mem_cons.mp blank
      have noLine : (line.chars.tail :: rest.map PlacedLine.chars).find? (fun behind => !isBlankText behind) = none :=
        List.find?_eq_none.mpr fun behind member => by simp [blank behind member]
      have noEntry : (line :: rest).find? (fun line => decide (line.IsOutside (fencedZones source)) && isTop line.chars) =
          none := by
        refine List.find?_eq_none.mpr (List.forall_mem_cons.mpr ⟨by simp [isTop, bare], fun behind member => ?_⟩)
        exact Bool.eq_false_iff.mp (apart behind (by simp [isMarked_of_blank (others _ (List.mem_map_of_mem member))]))
      rw [noLine, noEntry]
      rfl

/-- The title of a document is the rest of the first line that begins with `#` and a blank, wherever that line stands, or the
    first line behind it that is not blank. It is the title of the table of contents if that line is a heading outside of
    code. -/
theorem title_is_of_first_marked_line (source : String) :
    titleOf source = ((titleLine? (Text.linesWithEnds source.toList)).map safeTitle).getD untitled ∧
      (TitledByHeading source → titleOf source = titleOfEntries (contents source)) :=
  ⟨titleOf_eq_titleLine? source, TitledByHeading.titleOf_eq⟩

/-- A fenced block in front of the heading does not matter if nothing in it looks like a heading. -/
theorem title_behind_block :
    let source := "~~~\n#include\n~~~\r\n## In\n# A: b\r\n"
    TitledByHeading source ∧ titleOf source = titleOfEntries (contents source) ∧ titleOf source = "A  b" := by
  intro source
  have titled : TitledByHeading source := by decide
  exact ⟨titled, (title_is_of_first_marked_line source).2 titled, by decide⟩

/-- A line in a fenced block is taken for the title, although it is no heading. -/
theorem fenced_line_is_title :
    let source := "~~~\n# In\n~~~\n# Out\n"
    titleOf source = "In" ∧ titleOfEntries (contents source) = "Out" := by
  decide

/-- So is the line behind a sign that stands alone. -/
theorem line_behind_sign_is_title :
    let source := "#\ntext\n# Out\n"
    titleOf source = "text" ∧ titleOfEntries (contents source) = "Out" := by
  decide

end Galley.Heading
