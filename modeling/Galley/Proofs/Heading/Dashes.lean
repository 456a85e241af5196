import Galley.Heading.Contents
import Mathlib

/-!
# Anchors in two passes

The anchor of a heading is read off its text in one pass, which remembers whether it is in a run of blanks. It is what two
passes give: the first keeps blanks and the characters of anchors, the second writes a dash for each run of blanks that is
left.

* `anchorParts`, `dashed` — the two passes;
* `dashed_append`, `dashed_cons_of_blank` — the second pass, run by run;
* `anchorChars_eq` — the pass with its memory does both;
* `IsGap` — what stands between two stretches of an anchor;
* `anchor_is_dashed_parts` — so it is for every text, and each gap in it becomes one dash.
-/

namespace Galley.Heading

open Galley.Text (isBlank)

variable {cs front gap back run rest : List Char} {c : Char}

/-! ## The two passes -/

/-- The first pass: what a text keeps of its characters. -/
def anchorParts (cs : List Char) : List Char := cs.filter fun c => isBlank c || isAnchorChar c

/-- The second pass: a text cut where blanks begin and end, with a dash for each run of blanks. -/
def dashed (cs : List Char) : List Char :=
  (cs.splitBy fun a b => isBlank a == isBlank b).flatMap fun run => if run.all isBlank then ['-'] else run

/-- Where blanks begin or end both sides can be written apart. -/
theorem dashed_append (apart : ∀ a ∈ front.getLast?, ∀ b ∈ back.head?, isBlank a ≠ isBlank b) :
    dashed (front ++ back) = dashed front ++ dashed back := by
  have differ : ∀ a ∈ front.getLast?, ∀ b ∈ back.head?, (isBlank a == isBlank b) = false := fun a last b first => by
    simpa using apart a last b first
  unfold dashed
  rw [List.splitBy_append differ, List.flatMap_append]

/-- A run of characters of one kind is not cut. -/
theorem dashed_of_run {blank : Bool} (some : run ≠ []) (alike : ∀ c ∈ run, isBlank c = blank) :
    dashed run = if blank then ['-'] else run := by
  have chain : run.IsChain fun a b => isBlank a == isBlank b := by
    refine (List.pairwise_iff_forall_sublist.mpr fun {a b} inside => ?_).isChain
    simp [alike a (inside.mem (by simp)), alike b (inside.mem (by simp))]
  have kind : run.all isBlank = blank := by
    obtain ⟨c, more, rfl⟩ := List.exists_cons_of_ne_nil some
    cases blank with
    | true => simpa using alike
    | false => simp [alike c]
  rw [dashed, List.splitBy_of_isChain some chain, List.flatMap_cons, kind, List.flatMap_nil, List.append_nil]

theorem dashed_append_of_plain (plain : ∀ c ∈ run, isBlank c = false) (stops : ∀ b ∈ rest.head?, isBlank b = true) :
    dashed (run ++ rest) = run ++ dashed rest := by
  cases run with
  | nil => rfl
  | cons c more =>
    rw [dashed_append, dashed_of_run (List.cons_ne_nil c more) plain]
    · rfl
    · intro a last b first
      simp [plain a (List.mem_of_getLast? last), stops b first]

theorem dashed_append_of_blank (some : run ≠ []) (blank : ∀ c ∈ run, isBlank c = true)
    (stops : ∀ b ∈ rest.head?, isBlank b = false) : dashed (run ++ rest) = '-' :: dashed rest := by
  rw [dashed_append, dashed_of_run some blank]
  · rfl
  · intro a last b first
    simp [blank a (List.mem_of_getLast? last), stops b first]

/-! ## Both passes, character by character -/

theorem dashed_cons_of_plain (plain : isBlank c = false) (cs : List Char) : dashed (c :: cs) = c :: dashed cs := by
  -- The character belongs to the run that the rest begins with, if it begins with one.
  have others : ∀ d ∈ cs.takeWhile (fun d => !isBlank d), isBlank d = false := fun d member => by
    simpa using List.mem_takeWhile_imp member
  have stops : ∀ b ∈ (cs.dropWhile fun d => !isBlank d).head?, isBlank b = true := fun b first => by
    have ends := List.head?_dropWhile_not (fun d => !isBlank d) cs
    rw [Option.mem_def.mp first] at ends
    simpa using ends
  have longer := dashed_append_of_plain (List.forall_mem_cons.mpr ⟨plain, others⟩) stops
  have shorter := dashed_append_of_plain others stops
  rw [List.cons_append, List.takeWhile_append_dropWhile] at longer
  rw [List.takeWhile_append_dropWhile] at shorter
  rw [longer, shorter, List.cons_append]

theorem dashed_cons_of_blank (blank : isBlank c = true) (cs : List Char) :
    dashed (c :: cs) = '-' :: dashed (cs.dropWhile isBlank) := by
  have others : ∀ d ∈ cs.takeWhile isBlank, isBlank d = true := fun d member => List.mem_takeWhile_imp member
  have stops : ∀ b ∈ (cs.dropWhile isBlank).head?, isBlank b = false := fun b first => by
    have ends := List.head?_dropWhile_not isBlank cs
    rwa [Option.mem_def.mp first] at ends
  have run := dashed_append_of_blank (List.cons_ne_nil c _) (List.forall_mem_cons.mpr ⟨blank, others⟩) stops
  rwa [List.cons_append, List.takeWhile_append_dropWhile] at run

theorem not_isBlank_of_isAnchorChar (kept : isAnchorChar c = true) : isBlank c = false := by
  have ascii : c.toNat < 128 := by
    simp only [isAnchorChar, Char.isAlphanum, Char.isAlpha, Char.isUpper, Char.isLower, Char.isDigit, Bool.or_eq_true,
      Bool.and_eq_true, decide_eq_true_eq, beq_iff_eq, UInt32.le_iff_toNat_le] at kept
    rcases kept with (((⟨-, upper⟩ | ⟨-, upper⟩) | ⟨-, upper⟩) | rfl) | rfl
    · exact Nat.lt_of_le_of_lt upper (by decide)
    · exact Nat.lt_of_le_of_lt upper (by decide)
    · exact Nat.lt_of_le_of_lt upper (by decide)
    · decide
    · decide
  have all : ∀ n < 128, isAnchorChar (Char.ofNat n) = true → isBlank (Char.ofNat n) = false := by decide
  have here := all c.toNat ascii
  rw [Char.ofNat_toNat] at here
  exact here kept

/-- In a run of blanks whose dash is written, the pass in one goes on where the run ends. -/
theorem anchorChars_eq (inBlanks : Bool) (cs : List Char) : anchorChars inBlanks cs =
    dashed (if inBlanks then (anchorParts cs).dropWhile isBlank else anchorParts cs) := by
  induction cs generalizing inBlanks with
  | nil => cases inBlanks <;> rfl
  | cons c rest ih =>
    by_cases blank : isBlank c = true
    · have parts : anchorParts (c :: rest) = c :: anchorParts rest := List.filter_cons_of_pos (by simp [blank])
      cases inBlanks with
      | true => simp [anchorChars, blank, parts, ih]
      | false => simp [anchorChars, blank, parts, ih, dashed_cons_of_blank]
    · rw [Bool.not_eq_true] at blank
      by_cases kept : isAnchorChar c = true
      · have parts : anchorParts (c :: rest) = c :: anchorParts rest := List.filter_cons_of_pos (by simp [kept])
        cases inBlanks <;> simp [anchorChars, blank, kept, parts, ih, dashed_cons_of_plain]
      · have parts : anchorParts (c :: rest) = anchorParts rest := List.filter_cons_of_neg (by simp [blank, kept])
        simp [anchorChars, blank, kept, parts, ih]

/-! ## Gaps -/

/-- What stands between two stretches of an anchor, or in front of the first or behind the last: characters that it does
    not keep, blanks among them. -/
structure IsGap (front gap back : List Char) : Prop where
  dropped : ∀ c ∈ gap, isAnchorChar c = false
  blank : ∃ c ∈ gap, isBlank c = true
  before : ∀ c, front.getLast? = some c → isAnchorChar c = true
  behind : ∀ c, back.head? = some c → isAnchorChar c = true

theorem getLast?_anchorParts (before : ∀ c, front.getLast? = some c → isAnchorChar c = true) :
    (anchorParts front).getLast? = front.getLast? := by
  rcases List.eq_nil_or_concat front with rfl | ⟨init, c, rfl⟩
  · rfl
  · have kept := before c (by simp)
    simp [anchorParts, kept]

theorem head?_anchorParts (behind : ∀ c, back.head? = some c → isAnchorChar c = true) :
    (anchorParts back).head? = back.head? := by
  cases back with
  | nil => rfl
  | cons c rest =>
    have kept := behind c rfl
    simp [anchorParts, kept]

/-- However many runs of blanks are in a gap, and whatever stands between them, it becomes one dash. -/
theorem dashed_gap (isGap : IsGap front gap back) :
    dashed (anchorParts (front ++ (gap ++ back))) = dashed (anchorParts front) ++ '-' :: dashed (anchorParts back) := by
  have blanks : ∀ c ∈ anchorParts gap, isBlank c = true := by
    intro c member
    have kept := List.of_mem_filter member
    simpa [isGap.dropped c (List.mem_of_mem_filter member)] using kept
  have some : anchorParts gap ≠ [] := by
    obtain ⟨c, member, blank⟩ := isGap.blank
    exact List.ne_nil_of_mem (List.mem_filter.mpr ⟨member, by simp [blank]⟩)
  have stops : ∀ b ∈ (anchorParts back).head?, isBlank b = false := by
    rw [head?_anchorParts isGap.behind]
    exact fun b first => not_isBlank_of_isAnchorChar (isGap.behind b first)
  have whole : anchorParts (front ++ (gap ++ back)) = anchorParts front ++ (anchorParts gap ++ anchorParts back) := by
    simp [anchorParts]
  rw [whole, dashed_append, dashed_append_of_blank some blanks stops]
  -- In front of the gap stands a character that is no blank, and the gap begins with one.
  rw [getLast?_anchorParts isGap.before, List.head?_append_of_ne_nil _ some]
  intro a last b first
  simp [not_isBlank_of_isAnchorChar (isGap.before a last), blanks b (List.mem_of_head? first)]

/-- The anchor of a text is its small form with only the characters that anchors keep, and with one dash for each run of
    blanks among these. So each gap in the small form becomes one dash, at the ends as well as between. -/
theorem anchor_is_dashed_parts (text : String) :
    anchorOf text = .ofList (dashed (anchorParts (Text.lower text.toList))) ∧
      ∀ front gap back, Text.lower text.toList = front ++ (gap ++ back) → IsGap front gap back →
        (anchorOf text).toList = dashed (anchorParts front) ++ '-' :: dashed (anchorParts back) := by
  have both : anchorOf text = .ofList (dashed (anchorParts (Text.lower text.toList))) := by
    rw [anchorOf, anchorChars_eq]
    rfl
  refine ⟨both, fun front gap back whole isGap => ?_⟩
  rw [both, whole, String.toList_ofList, dashed_gap isGap]

/-- The dot that the small form of a capital takes along and the sign between two runs of blanks are left out, and the blank
    at the end leaves a dash. -/
theorem anchor_of_joined_blanks :
    let text := "\u0130 &\t B "
    IsGap "i".toList "\u0307 &\t ".toList "b ".toList ∧ (anchorOf text).toList = "i-b-".toList := by
  intro text
  have isGap : IsGap "i".toList "\u0307 &\t ".toList "b ".toList :=
    ⟨by simp; decide, ⟨' ', by decide, by decide⟩, by simp; decide, by simp; decide⟩
  have whole : Text.lower text.toList = "i".toList ++ ("\u0307 &\t ".toList ++ "b ".toList) := by decide
  refine ⟨isGap, ?_⟩
  rw [(anchor_is_dashed_parts text).2 _ _ _ whole isGap]
  decide

end Galley.Heading
