import Galley.Markdown.Token
import Galley.Proofs.Markdown.Passages

/-!
# Cutting marked texts into tokens of the line

The tokens of a line stand one after the other. A stretch of text ends in front of a mark or at the end of a
line, so it goes through no token of an extraction.

* `Token.Sits` — what holds of a token where it stands;
* `Ascending` — tokens that stand one after the other;
* `Cut.Sound` — the state of the cut;
* `ascending_tokens` — the tokens of a block.
-/

namespace Galley.Markdown

open Galley.Source (Marking isPrivateUse isTokenChar Clear clear_cons clear_nil)

variable {m : Marking} {cs : List Char} {cut : Cut} {place : Nat}

/-- What holds of a token where it stands: text is cut at its end in front of a mark, a run of grave accents has
    nothing else in it, and a closing bracket is the last character of its token. -/
def Token.Sits (m : Marking) (cs : List Char) (token : Token) : Prop :=
  match token.kind with
  | .text => Clear (cs.drop token.stop)
  | .reference chars => m.opening ∉ chars
  | .delimiters mark _ _ _ => isTokenChar mark = false
  | .graves _ _ => ∀ place, token.start ≤ place → place < token.stop → Clear (cs.drop place)
  | .closing => ∃ front, cs.take token.stop = front ++ [']']
  | _ => True

/-- Whether a token is the end of a line. -/
def TokenKind.endsLine : TokenKind → Bool
  | .softBreak => true
  | .hardBreak => true
  | _ => false

/-- A token that stands behind a place. The end of a line may take back a part of what stands in front of
    it. -/
structure Token.Behind (m : Marking) (cs : List Char) (place : Nat) (token : Token) : Prop where
  /-- It ends behind the place. -/
  stop : place ≤ token.stop
  /-- It begins there too. -/
  start : token.kind.endsLine = false → place ≤ token.start
  /-- It is not empty. -/
  some : token.start < token.stop
  /-- It sits well. -/
  sits : token.Sits m cs

/-- Tokens that stand one after the other behind a place. -/
def Ascending (m : Marking) (cs : List Char) : Nat → List Token → Prop
  | _, [] => True
  | place, token :: rest => token.Behind m cs place ∧ Ascending m cs token.stop rest

/-- Where some tokens end. -/
def endOf : Nat → List Token → Nat
  | place, [] => place
  | _, token :: rest => endOf token.stop rest

theorem ascending_concat {tokens : List Token} {token : Token} :
    Ascending m cs place (tokens ++ [token]) ↔
      Ascending m cs place tokens ∧ token.Behind m cs (endOf place tokens) := by
  induction tokens generalizing place with
  | nil => simp [Ascending, endOf]
  | cons first rest ih => simp [Ascending, endOf, ih, and_assoc]

theorem endOf_concat (tokens : List Token) (token : Token) :
    endOf place (tokens ++ [token]) = token.stop := by
  induction tokens generalizing place with
  | nil => rfl
  | cons first rest ih => exact ih

theorem Token.Behind.mono {token : Token} {place' : Nat} (behind : token.Behind m cs place)
    (earlier : place' ≤ place) : token.Behind m cs place' where
  stop := Nat.le_trans earlier behind.stop
  start := fun kind => Nat.le_trans earlier (behind.start kind)
  some := behind.some
  sits := behind.sits

/-- The tokens that have been cut stand one after the other, and the text that is no token yet begins behind
    them. -/
structure Cut.Sound (m : Marking) (cs : List Char) (cut : Cut) : Prop where
  /-- The tokens ascend. -/
  ascending : Ascending m cs 0 cut.tokens.reverse
  /-- The text begins behind them. -/
  ended : endOf 0 cut.tokens.reverse ≤ cut.textStart

namespace Cut.Sound

theorem withStart (sound : cut.Sound m cs) (textStart : Nat) (later : cut.textStart ≤ textStart) :
    Cut.Sound m cs { cut with textStart } :=
  ⟨sound.ascending, Nat.le_trans sound.ended later⟩

/-- One more token. -/
theorem push (sound : cut.Sound m cs) (token : Token) (behind : token.Behind m cs cut.textStart) :
    Cut.Sound m cs ⟨token :: cut.tokens, token.stop⟩ where
  ascending := by
    rw [List.reverse_cons, ascending_concat]
    exact ⟨sound.ascending, behind.mono sound.ended⟩
  ended := by
    exact Nat.le_of_eq (by rw [List.reverse_cons, endOf_concat])

theorem flush (sound : cut.Sound m cs) (clear : Clear (cs.drop place)) :
    Cut.Sound m cs (cut.flush place) ∧ (cut.flush place).textStart = max cut.textStart place := by
  unfold Cut.flush
  split
  next forward =>
    exact ⟨sound.push ⟨cut.textStart, place, .text⟩
      ⟨Nat.le_of_lt forward, fun _ => Nat.le_refl _, forward, clear⟩, by simp only; omega⟩
  next => exact ⟨sound, by omega⟩

/-- A mark, after the text in front of it. -/
theorem add (sound : cut.Sound m cs) {start stop : Nat} {kind : TokenKind} (clear : Clear (cs.drop start))
    (behind : kind.endsLine = false → cut.textStart ≤ start) (further : cut.textStart ≤ stop)
    (some : start < stop) (sits : Token.Sits m cs ⟨start, stop, kind⟩) :
    Cut.Sound m cs (cut.add start stop kind) := by
  obtain ⟨flushed, place⟩ := sound.flush clear
  refine flushed.push ⟨start, stop, kind⟩ ⟨?_, fun other => ?_, some, sits⟩
  · rw [place]
    simp only
    omega
  · have := behind other
    rw [place]
    simp only
    omega

end Cut.Sound

/-! ## Marks -/

/-- What a mark makes of the cut: the text goes on behind it, and it lies within the line. -/
structure Marked (m : Marking) (cs : List Char) (place length : Nat) (marked : Cut × Nat) : Prop where
  /-- The tokens ascend. -/
  sound : marked.1.Sound m cs
  /-- Text does not go on behind the mark. -/
  behind : marked.1.textStart ≤ place + marked.2
  /-- A mark has a character. -/
  some : 1 ≤ marked.2
  /-- A mark has no more characters than the line. -/
  most : marked.2 ≤ length

theorem runLength_le (mark : Char) (cs : List Char) : runLength mark cs ≤ cs.length :=
  (List.takeWhile_prefix _).length_le

theorem drop_of_lt_runLength {mark : Char} (cs : List Char) {i : Nat} (inside : i < runLength mark cs) :
    ∃ more, cs.drop i = mark :: more := by
  induction cs generalizing i with
  | nil => cases inside
  | cons c rest ih =>
    unfold runLength at inside ih
    by_cases same : c = mark
    · rw [List.takeWhile_cons_of_pos (by simp [same])] at inside
      cases i with
      | zero => exact ⟨rest, by rw [same]; rfl⟩
      | succ i => exact ih (Nat.lt_of_succ_lt_succ inside)
    · rw [List.takeWhile_cons_of_neg (by simp [same])] at inside
      cases inside

theorem runLength_cons_self (mark : Char) (cs : List Char) :
    runLength mark (mark :: cs) = runLength mark cs + 1 := by
  simp [runLength]

/-- At every place of a run stands its mark. -/
theorem clear_run {mark : Char} {line tail : List Char} {start : Nat} (other : isTokenChar mark = false)
    (here : cs.drop start = line ++ tail) {i : Nat} (low : start ≤ i) (high : i < start + runLength mark line) :
    Clear (cs.drop i) := by
  obtain ⟨j, rfl⟩ := Nat.exists_eq_add_of_le low
  obtain ⟨more, same⟩ := drop_of_lt_runLength line (show j < runLength mark line by omega)
  have short : j ≤ line.length := Nat.le_trans (by omega) (runLength_le mark line)
  rw [← List.drop_drop, here, List.drop_append_of_le_length short, same]
  exact clear_cons other

/-- A mark that becomes a token of its own. -/
theorem Marked.add {c : Char} {line tail : List Char} {length : Nat} {kind : TokenKind}
    (sound : cut.Sound m cs) (start : cut.textStart ≤ place) (here : cs.drop place = c :: line ++ tail)
    (mark : isTokenChar c = false) (some : 1 ≤ length) (most : length ≤ (c :: line).length)
    (sits : Token.Sits m cs ⟨place, place + length, kind⟩) :
    Marked m cs place (c :: line).length (cut.add place (place + length) kind, length) where
  sound := sound.add (by rw [here]; exact clear_cons mark) (fun _ => start) (by omega) (by omega) sits
  behind := Nat.le_refl _
  some := some
  most := most

/-- A character that is text. -/
theorem Marked.pass {line : List Char} {length : Nat} (sound : cut.Sound m cs)
    (start : cut.textStart ≤ place) (some : 1 ≤ length) (most : length ≤ line.length) :
    Marked m cs place line.length (cut, length) where
  sound := sound
  behind := Nat.le_trans start (Nat.le_add_right _ _)
  some := some
  most := most

/-- The first character of a text, and what it begins. -/
theorem markAt_spec {c : Char} (before : Char) {line tail : List Char} (sound : cut.Sound m cs)
    (start : cut.textStart ≤ place) (here : cs.drop place = c :: line ++ tail)
    (unforged : Unforged m.opening (c :: line)) :
    Marked m cs place (c :: line).length (markAt cut place before (c :: line)) := by
  have one : Marked m cs place (c :: line).length (cut, 1) := .pass sound start (by omega) (by simp)
  have run : ∀ mark : Char, mark = c → runLength mark (c :: line) ≤ (c :: line).length ∧
      1 ≤ runLength mark (c :: line) := fun mark same => by
    refine ⟨runLength_le _ _, ?_⟩
    rw [same, runLength_cons_self]
    omega
  unfold markAt
  simp only
  split
  next =>
    -- A backslash in front of punctuation is left out of the text.
    have clear : Clear (cs.drop place) := by rw [here]; exact clear_cons (by decide)
    obtain ⟨flushed, flushedStart⟩ := sound.flush clear
    have escaped : Cut.Sound m cs { cut.flush place with textStart := place + 1 } :=
      flushed.withStart _ (by omega)
    split
    next d after =>
      split
      next grave =>
        rw [beq_iff_eq.mp grave] at here ⊢
        have next : cs.drop (place + 1) = '\x60' :: after ++ tail := by
          rw [← List.drop_drop, here]
          rfl
        have length := runLength_le '\x60' after
        refine ⟨escaped.add (by rw [next]; exact clear_cons (by decide)) (fun _ => Nat.le_refl _)
          (by simp only; omega) (by omega) fun i low high => ?_, ?_, ?_, ?_⟩
        · refine clear_run (show isTokenChar '\x60' = false by decide) next low ?_
          rw [runLength_cons_self]
          simp only at high
          omega
        · simp only [Cut.add]
          omega
        · simp only
          omega
        · simp only [List.length_cons]
          omega
      next =>
      split
      next => exact ⟨escaped, by simp only; omega, by simp only; omega, by simp⟩
      next => exact one
    next => exact one
  next =>
    obtain ⟨most, some⟩ := run '\x60' rfl
    exact .add sound start here (by decide) some most fun i low high => clear_run (by decide) here low high
  next =>
    split
    · exact one
    · exact .add sound start here (by decide) (by omega) (by simp) trivial
  next =>
    split
    next bracket =>
      cases line with
      | nil => cases bracket
      | cons d more => exact .add sound start here (by decide) (by omega) (by simp) trivial
    next => exact one
  next => exact .add sound start here (by decide) (by omega) (by simp) trivial
  next =>
    refine .add sound start here (by decide) (by omega) (by simp) ⟨cs.take place, ?_⟩
    simp only
    rw [List.take_add, here]
    rfl
  next =>
    split
    next chars after read =>
      obtain ⟨t, whole, -, -⟩ := reference?_spec read
      have size := congrArg List.length whole
      rw [List.length_append] at size
      exact .add sound start here (by decide) (by omega) (by simp only [List.length_cons]; omega)
        (unforged.1 rfl chars after read)
    next => exact one
  next =>
    split
    next mark =>
      have other : isTokenChar c = false := by
        simp only [Bool.or_eq_true, beq_iff_eq] at mark
        rcases mark with (rfl | rfl) | rfl <;> decide
      obtain ⟨most, some⟩ := run c rfl
      split
      · exact .add sound start here other some most other
      · exact .pass sound start some most
    next => exact one

/-- The tokens of a line stand one after the other. -/
theorem cutLine_spec (before : Char) {skip : Nat} {line tail : List Char} (sound : cut.Sound m cs)
    (start : cut.textStart ≤ place + skip) (most : skip ≤ line.length)
    (here : cs.drop place = line ++ tail) (unforged : Unforged m.opening line) :
    (cutLine cut place before skip line).Sound m cs ∧
      (cutLine cut place before skip line).textStart ≤ place + line.length := by
  fun_induction cutLine cut place before skip line with
  | case1 cut place before skip =>
    exact ⟨sound, by simp only [List.length_nil, Nat.le_zero] at most ⊢; omega⟩
  | case2 cut place before skip c rest ih =>
    simp only [List.length_cons] at most
    have later : cs.drop (place + 1) = rest ++ tail := by
      rw [← List.drop_drop, here]
      rfl
    obtain ⟨sound, start⟩ := ih sound (by omega) (by omega) later unforged.2
    exact ⟨sound, by simp only [List.length_cons]; omega⟩
  | case3 cut place before c rest next length marked ih =>
    have later : cs.drop (place + 1) = rest ++ tail := by
      rw [← List.drop_drop, here]
      rfl
    have mark := markAt_spec before sound (Nat.add_zero place ▸ start) here unforged
    rw [marked] at mark
    obtain ⟨sound, behind, some, most⟩ := mark
    simp only [List.length_cons] at behind some most
    obtain ⟨sound, start⟩ := ih sound (by omega) (by omega) later unforged.2
    exact ⟨sound, by simp only [List.length_cons]; omega⟩

/-! ## Lines -/

/-- In front of the blanks at the end of a line a text can be cut. -/
theorem clear_trailing {p : Char → Bool} {start : Nat} {text more : List Char}
    (none : ∀ c, p c = true → isTokenChar c = false) (here : cs.drop start = text ++ more)
    (clear : Clear more) : Clear (cs.drop (start + text.length - (text.reverse.takeWhile p).length)) := by
  have all := List.all_eq_true.mp (List.all_takeWhile (p := p) (l := text.reverse))
  have split := List.takeWhile_append_dropWhile (p := p) (l := text.reverse)
  generalize text.reverse.takeWhile p = run at all split
  generalize text.reverse.dropWhile p = front at split
  have whole : text = front.reverse ++ run.reverse := by
    rw [← List.reverse_append, split, List.reverse_reverse]
  subst whole
  have at' : start + (front.reverse ++ run.reverse).length - run.length = start + front.reverse.length := by
    simp only [List.length_append, List.length_reverse]
    omega
  rw [at', ← List.drop_drop, here, List.append_assoc, List.drop_left]
  cases back : run.reverse with
  | nil => exact clear
  | cons c rest => exact clear_cons (none c (all c (List.mem_reverse.mp (back ▸ List.mem_cons_self))))

/-- The tokens up to the end of a line stand one after the other. -/
theorem cutLineBreak_spec {line : ContentLine} {start : Nat} {more : List Char} (sound : cut.Sound m cs)
    (ended : cut.textStart ≤ start + line.text.length)
    (here : cs.drop start = line.text ++ (line.lineBreak ++ more))
    (breaks : ∀ c ∈ line.lineBreak, isBreak c = true) (broken : line.lineBreak ≠ []) :
    (cutLineBreak cut (start + line.text.length) line).Sound m cs ∧
      (cutLineBreak cut (start + line.text.length) line).textStart =
        start + line.text.length + line.lineBreak.length := by
  have longer : 0 < line.lineBreak.length := List.length_pos_iff.mpr broken
  have clear : Clear (line.lineBreak ++ more) := by
    cases ends : line.lineBreak with
    | nil => exact absurd ends broken
    | cons c rest =>
      exact clear_cons (isTokenChar_of_isBreak (breaks c (by rw [ends]; exact List.mem_cons_self)))
  unfold cutLineBreak
  simp only
  split
  next odd =>
    obtain ⟨front, whole⟩ : ∃ front, line.text = front ++ ['\\'] := by
      cases back : line.text.reverse with
      | nil => simp [back] at odd
      | cons c rest =>
        by_cases same : c = '\\'
        · exact ⟨rest.reverse, by rw [← List.reverse_reverse line.text, back, same, List.reverse_cons]⟩
        · simp [back, same] at odd
    have last : start + line.text.length - 1 = start + front.length := by
      rw [whole, List.length_append]
      simp
    have atMark : Clear (cs.drop (start + line.text.length - 1)) := by
      rw [last, ← List.drop_drop, here, whole, List.append_assoc, List.drop_left]
      exact clear_cons (by decide)
    obtain ⟨flushed, flushedStart⟩ := sound.flush atMark
    exact ⟨flushed.add atMark (fun absurd' => by cases absurd') (by omega) (by omega) trivial, rfl⟩
  next =>
    have atBlanks := clear_trailing (fun c => isTokenChar_of_isSpace) here clear
    obtain ⟨flushed, flushedStart⟩ := sound.flush atBlanks
    refine ⟨flushed.push ⟨_, _, _⟩ ⟨by simp only; omega, fun other => ?_, by simp only; omega, ?_⟩, rfl⟩
    · split at other <;> cases other
    · split <;> trivial

/-- The tokens of some lines stand one after the other. -/
theorem cutLines_spec {before : Char} {lines : List ContentLine} (sound : cut.Sound m cs)
    (behind : cut.textStart ≤ place) (fit : ∀ line ∈ lines, line.Fit m)
    (broken : ∀ line ∈ lines.dropLast, line.lineBreak ≠ [])
    (here : cs.drop place = lines.flatMap ContentLine.whole) :
    (cutLines cut place before lines).Sound m cs := by
  induction lines generalizing cut place before with
  | nil => exact sound
  | cons line rest ih =>
    obtain ⟨first, others⟩ := List.forall_mem_cons.mp fit
    have whole : cs.drop (place + line.indentation.length) =
        line.text ++ (line.lineBreak ++ rest.flatMap ContentLine.whole) := by
      rw [← List.drop_drop, here]
      simp [ContentLine.whole]
    obtain ⟨cutSound, ended⟩ := cutLine_spec
      ((line.skipped ++ line.indentation).getLast?.getD before)
      (sound.withStart (place + line.indentation.length) (by omega)) (by simp) (Nat.zero_le _)
      whole first.text.unforged
    unfold cutLines
    simp only
    split
    next last =>
      refine (cutSound.flush ?_).1
      have unbroken := List.isEmpty_iff.mp last
      rw [← List.drop_drop, whole, List.drop_left, unbroken]
      cases rest with
      | nil => exact clear_nil
      | cons next more => exact absurd unbroken (broken line (by simp))
    next notLast =>
      have some : line.lineBreak ≠ [] := fun none => notLast (by rw [none]; rfl)
      obtain ⟨breakSound, breakEnd⟩ := cutLineBreak_spec cutSound ended whole first.lineBreak some
      refine ih breakSound (Nat.le_of_eq breakEnd) others (fun other member => broken other ?_) ?_
      · cases rest with
        | nil => cases member
        | cons next more =>
          rw [List.dropLast_cons_of_ne_nil (by simp)]
          exact List.mem_cons_of_mem _ member
      · rw [Nat.add_assoc, ← List.drop_drop, whole, ← List.append_assoc, ← List.length_append,
          List.drop_left]

/-- The tokens of a block stand one after the other in its passage. -/
theorem ascending_tokens {content : Content} (fit : content.Fit m) :
    Ascending m (Passage.ofContent content).chars.toList 0 (tokens content) := by
  have start : Cut.Sound m (Passage.ofContent content).chars.toList ⟨[], 0⟩ := ⟨trivial, Nat.le_refl _⟩
  refine (cutLines_spec start (Nat.le_refl _) fit.lines fit.broken ?_).ascending
  simp [Passage.ofContent]

end Galley.Markdown
