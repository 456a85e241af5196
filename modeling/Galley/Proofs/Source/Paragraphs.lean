import Galley.Proofs.Source.Standings

/-!
# Fragments filled in as they were written

Filling and unmasking read the same tokens. If each fragment is filled in as it was written, all that filling does besides is
to leave out the paragraph of a token that stands alone. It takes the start of the paragraph back from what it wrote, so that
this is always the start that stands in the markup has to be shown: what is written for a fragment ends in a delimiter.

* `Replaced.Apart` — no pattern lies across the border of two texts, the invariant of filling;
* `Extraction.Unwraps` — a token takes the place of its paragraph;
* `fillChars_sources` — filling is unmasking without those paragraphs;
* `Region.InParagraph`, `exists_region_of_mem_placesFrom` — a token that stands alone stands for a region that stands alone;
* `fill_sources` — both for an extraction.
-/

namespace Galley.Source

namespace Replaced

variable {table : List Char → List Char → Prop} {first c : Char}
variable {cs pattern replacement before rest out : List Char}

/-! ## Replacing -/

/-- Replacing always ends, as no pattern is empty. -/
theorem exists_out (begins : BeginsWith table first) (cs : List Char) : ∃ out, Replaced table cs out := by
  induction size : cs.length using Nat.strong_induction_on generalizing cs with
  | _ size ih =>
    subst size
    cases cs with
    | nil => exact ⟨[], .done⟩
    | cons c rest =>
      by_cases here : ∃ pattern replacement, table pattern replacement ∧ pattern <+: c :: rest
      · obtain ⟨pattern, replacement, listed, behind, whole⟩ := here
        obtain ⟨tail, rfl⟩ := begins pattern replacement listed
        have shorter : behind.length < (c :: rest).length := by
          rw [← whole]
          simp only [List.length_append, List.length_cons]
          omega
        obtain ⟨out, more⟩ := ih behind.length shorter behind rfl
        rw [← whole]
        exact ⟨_, .found listed more⟩
      · obtain ⟨out, more⟩ := ih rest.length (Nat.lt_succ_self _) rest rfl
        refine ⟨c :: out, .kept ?_ more⟩
        exact fun pattern replacement listed begins => here ⟨pattern, replacement, listed, begins⟩

/-- A text that holds no pattern stays as it is. -/
theorem self (absent : ∀ pattern replacement, table pattern replacement → ¬ pattern <:+: cs) : Replaced table cs cs := by
  induction cs with
  | nil => exact .done
  | cons c rest ih =>
    refine .kept (fun pattern replacement listed here => absent pattern replacement listed here.isInfix) (ih ?_)
    exact fun pattern replacement listed inside => absent pattern replacement listed (List.infix_cons inside)

/-- What no replacement begins with was kept. -/
theorem of_out (answers : ∀ pattern replacement, table pattern replacement → ∃ tail, replacement = first :: tail)
    (absent : first ∉ before) (replaced : Replaced table cs (before ++ out)) :
    ∃ rest, cs = before ++ rest ∧ Replaced table rest out := by
  induction before generalizing cs with
  | nil => exact ⟨cs, rfl, replaced⟩
  | cons c before ih =>
    obtain ⟨other, absent⟩ := not_or.mp (mt List.mem_cons.mpr absent)
    rw [List.cons_append] at replaced
    generalize whole : c :: (before ++ out) = out' at replaced
    cases replaced with
    | done => cases whole
    | found listed _ =>
      obtain ⟨tail, rfl⟩ := answers _ _ listed
      exact absurd (List.cons.inj whole).1.symm other
    | kept _ more =>
      obtain ⟨rfl, rfl⟩ := List.cons.inj whole
      obtain ⟨rest, rfl, more'⟩ := ih absent more
      exact ⟨rest, rfl, more'⟩

/-! ## Borders -/

/-- No pattern lies across the border between two texts. -/
def Apart (table : List Char → List Char → Prop) (before cs : List Char) : Prop :=
  ∀ front back replacement, table (front ++ back) replacement → front ≠ [] → front <:+ before → ¬ back <+: cs

theorem apart_nil (table : List Char → List Char → Prop) (cs : List Char) : Apart table [] cs := by
  intro front back replacement _ some ends
  exact absurd (List.suffix_nil.mp ends) some

/-- The border moves on over a character at which no pattern begins. -/
theorem Apart.push (apart : Apart table before (c :: rest))
    (other : ∀ pattern replacement, table pattern replacement → ¬ pattern <+: c :: rest) :
    Apart table (before ++ [c]) rest := by
  intro front back replacement listed some ends here
  obtain ⟨piece, rfl, ends'⟩ := (List.suffix_concat_iff.mp ends).resolve_left some
  rw [List.append_assoc, List.singleton_append] at listed
  have here' : c :: back <+: c :: rest := List.cons_prefix_cons.mpr ⟨rfl, here⟩
  by_cases first : piece = []
  · subst first
    exact other _ _ listed here'
  · exact apart piece (c :: back) replacement listed first ends' here'

/-- After a character that no pattern holds there is a border. -/
theorem apart_of_last (absent : ∀ pattern replacement, table pattern replacement → c ∉ pattern) (before cs : List Char) :
    Apart table (before ++ [c]) cs := by
  intro front back replacement listed some ends _
  obtain ⟨piece, rfl, -⟩ := (List.suffix_concat_iff.mp ends).resolve_left some
  exact absent _ _ listed (by simp)

end Replaced

/-- A text has a region directly between the tags of a paragraph. -/
def Region.InParagraph (cs : List Char) (region : Region) : Prop :=
  paragraphStart <:+ (Text.cut region.span.start cs).1 ∧ paragraphStop <+: (Text.cut region.span.stop cs).2

instance (cs : List Char) (region : Region) : Decidable (region.InParagraph cs) :=
  inferInstanceAs (Decidable (_ ∧ _))

namespace Extraction

open Replaced

variable {extraction : Extraction} {fragment : Fragment} {zeros : Nat} {c : Char}
variable {pattern replacement token cs cs' rest out after : List Char} {resolve : Fragment → Standing → String}

/-! ## Paragraphs -/

/-- A display formula or a marker takes the place of a paragraph that holds nothing else. -/
def Unwraps (extraction : Extraction) (pattern token : List Char) : Prop :=
  ∃ zeros fragment, extraction.Spells zeros fragment token ∧ fragment.kind ≠ .mathInline ∧
    pattern = paragraphStart ++ (token ++ paragraphStop)

theorem begins_unwraps (extraction : Extraction) : BeginsWith extraction.Unwraps '<' := by
  rintro pattern token ⟨zeros, fragment, -, -, rfl⟩
  exact ⟨_, rfl⟩

theorem exclusive_unwraps (paired : extraction.Paired) : Exclusive extraction.Unwraps := by
  rintro cs pattern token pattern' token' ⟨zeros, fragment, spells, -, rfl⟩ ⟨zeros', fragment', spells', -, rfl⟩
    ⟨behind, rfl⟩ ⟨behind', same⟩
  simp only [List.append_assoc, List.append_cancel_left_eq] at same
  obtain ⟨rfl, -⟩ := spells.eq_of_prefix paired spells' (List.prefix_append token _) ⟨_, same⟩
  exact ⟨rfl, rfl⟩

theorem opening_of_unwraps (unwraps : extraction.Unwraps pattern token) : ∃ tail, token = extraction.opening :: tail := by
  obtain ⟨zeros, fragment, spells, -⟩ := unwraps
  obtain ⟨body, same, -⟩ := spells.exists_body
  exact ⟨body, same⟩

/-- The last character of a fragment stands in no such paragraph. -/
theorem delimiter_not_mem (paired : extraction.Paired) (delimiter : c ∈ ['$', ']'])
    (unwraps : extraction.Unwraps pattern token) : c ∉ pattern := by
  obtain ⟨zeros, fragment, spells, -, rfl⟩ := unwraps
  have tags : ∀ c ∈ ['$', ']'], c ∉ paragraphStart ∧ c ∉ paragraphStop := by
    simp [paragraphStart, paragraphStop]
  have plain : ∀ c ∈ ['$', ']'], c.isDigit = false ∧ c.toNat < 0xe000 := by simp
  simp only [List.mem_append, not_or]
  exact ⟨(tags c delimiter).1, spells.not_mem paired (plain c delimiter).1 (plain c delimiter).2, (tags c delimiter).2⟩

/-! ## Steps -/

theorem fillChars_append {text : List Char} (absent : extraction.opening ∉ text) :
    extraction.fillChars resolve out (text ++ rest) = extraction.fillChars resolve (text.reverse ++ out) rest := by
  simp only [← fillCalls_fst resolve [], fillCalls_append absent]

theorem fillChars_spells (paired : extraction.Paired) (spells : extraction.Spells zeros fragment token) :
    extraction.fillChars resolve out (token ++ after) =
      extraction.fillChars resolve ((resolve fragment (placing fragment out after).1).toList.reverse ++
        (placing fragment out after).2.1) (placing fragment out after).2.2 := by
  obtain ⟨body, rfl, -⟩ := spells.exists_body
  exact fillChars_token (spells.tokenAfter?_eq paired after) out

theorem fillChars_kept (paired : extraction.Paired)
    (other : ∀ pattern replacement, extraction.Reads pattern replacement → ¬ pattern <+: c :: rest) :
    extraction.fillChars resolve out (c :: rest) = extraction.fillChars resolve (c :: out) rest := by
  by_cases same : c = extraction.opening
  · subst same
    refine fillChars_no_token ?_ out
    cases read : extraction.tokenAfter? rest with
    | none => rfl
    | some found =>
      obtain ⟨zeros, token, spells, whole⟩ := (tokenAfter?_eq_some_iff paired).mp read
      exact absurd ⟨_, whole.symm⟩ (other token _ ⟨zeros, _, spells, rfl⟩)
  · exact fillChars_of_ne same out rest

theorem unmaskChars_spells (paired : extraction.Paired) (spells : extraction.Spells zeros fragment token) :
    extraction.unmaskChars (token ++ rest) = fragment.source.toList ++ extraction.unmaskChars rest :=
  (replaced_unmaskChars paired _).unique extraction.begins_reads (exclusive_reads paired)
    (.found ⟨zeros, fragment, spells, rfl⟩ (replaced_unmaskChars paired rest))

theorem unmaskChars_kept (paired : extraction.Paired)
    (other : ∀ pattern replacement, extraction.Reads pattern replacement → ¬ pattern <+: c :: rest) :
    extraction.unmaskChars (c :: rest) = c :: extraction.unmaskChars rest :=
  (replaced_unmaskChars paired _).unique extraction.begins_reads (exclusive_reads paired)
    (.kept other (replaced_unmaskChars paired rest))

theorem placing_paragraph (kind : fragment.kind ≠ .mathInline) (out after : List Char) :
    placing fragment (paragraphStart.reverse ++ out) (paragraphStop ++ after) = (.standalone, out, after) := by
  unfold placing
  rw [if_neg kind]
  rfl

/-- Without its paragraphs a text begins with no other token than before. -/
theorem not_reads_of_replaced (paired : extraction.Paired) (replaced : Replaced extraction.Unwraps rest cs')
    (other : ∀ pattern replacement, extraction.Reads pattern replacement → ¬ pattern <+: c :: rest) :
    ∀ pattern replacement, extraction.Reads pattern replacement → ¬ pattern <+: c :: cs' := by
  rintro pattern replacement ⟨zeros, fragment, spells, rfl⟩ ⟨behind, whole⟩
  obtain ⟨body, rfl, -⟩ := spells.exists_body
  obtain ⟨rfl, rfl⟩ := List.cons.inj whole
  obtain ⟨rest, rfl, -⟩ := of_out (fun _ _ => opening_of_unwraps) (spells.opening_not_mem paired) replaced
  exact other _ _ ⟨zeros, fragment, spells, rfl⟩ ⟨rest, rfl⟩

/-! ## Filling -/

/-- If fragments are filled in as they were written, filling is unmasking without the paragraphs of tokens that stand alone.
    What was written so far must not run on into such a paragraph. -/
theorem fillChars_sources (paired : extraction.Paired)
    (enclosed : ∀ fragment ∈ extraction.fragments, Enclosed fragment.source.toList)
    (replaced : Replaced extraction.Unwraps cs cs') (apart : Apart extraction.Unwraps out.reverse cs) :
    extraction.fillChars (fun fragment _ => fragment.source) out cs = out.reverse ++ extraction.unmaskChars cs' := by
  induction size : cs.length using Nat.strong_induction_on generalizing out cs cs' with
  | _ size ih =>
    subst size
    -- behind a fragment there is a border, whatever was written before it
    have step : ∀ {zeros fragment token out rest rest'}, extraction.Spells zeros fragment token →
        Replaced extraction.Unwraps rest rest' → rest.length < cs.length →
        extraction.fillChars (fun fragment _ => fragment.source) (fragment.source.toList.reverse ++ out) rest =
          out.reverse ++ extraction.unmaskChars (token ++ rest') := by
      intro zeros fragment token out rest rest' spells more shorter
      obtain ⟨first, middle, last, same, -, delimiter⟩ := enclosed fragment spells.mem
      have border : Apart extraction.Unwraps (fragment.source.toList.reverse ++ out).reverse rest := by
        rw [List.reverse_append, List.reverse_reverse, same, ← List.cons_append, ← List.append_assoc]
        exact apart_of_last (fun _ _ => delimiter_not_mem paired delimiter) _ rest
      rw [ih _ shorter more border rfl, unmaskChars_spells paired spells, List.reverse_append, List.reverse_reverse,
        List.append_assoc]
    by_cases wrapped : ∃ pattern token, extraction.Unwraps pattern token ∧ pattern <+: cs
    · -- the start of the paragraph is written and taken back again
      obtain ⟨pattern, token, unwraps, rest, rfl⟩ := wrapped
      obtain ⟨rest', rfl, more⟩ := replaced.of_found extraction.begins_unwraps (exclusive_unwraps paired) unwraps
      obtain ⟨zeros, fragment, spells, kind, rfl⟩ := unwraps
      rw [List.append_assoc, List.append_assoc, fillChars_append paired.opening_not_mem_start,
        fillChars_spells paired spells, placing_paragraph kind]
      exact step spells more (by simp [paragraphStart]; omega)
    by_cases begins : ∃ zeros fragment token, extraction.Spells zeros fragment token ∧ token <+: cs
    · -- a token among other text, whatever stands behind it
      obtain ⟨zeros, fragment, token, spells, rest, rfl⟩ := begins
      obtain ⟨rest', rfl, more⟩ := replaced.of_append extraction.begins_unwraps (spells.not_mem paired (by decide) (by decide))
      rw [fillChars_spells paired spells]
      obtain ⟨-, placed⟩ | ⟨standing, _, _, rfl, rfl, -⟩ := placing_cases fragment out rest
      · rw [placed]
        exact step spells more (by simp [spells.length_pos])
      · -- the paragraph would have begun in what was written so far
        obtain ⟨kind, starts, -⟩ := Place.standing_eq_standalone_iff.mp standing
        refine absurd ?_ (apart paragraphStart (token ++ paragraphStop) token ⟨zeros, fragment, spells, kind, rfl⟩
          (by simp [paragraphStart]) starts)
        rw [← List.append_assoc]
        exact List.prefix_append _ _
    · -- no token begins here, and none does after paragraphs further on are gone
      have other : ∀ pattern replacement, extraction.Reads pattern replacement → ¬ pattern <+: cs := by
        rintro pattern replacement ⟨zeros, fragment, spells, -⟩ here
        exact begins ⟨zeros, fragment, pattern, spells, here⟩
      cases cs with
      | nil =>
        obtain rfl := replaced.unique extraction.begins_unwraps (exclusive_unwraps paired) .done
        rw [fillChars, unmaskChars, List.append_nil]
      | cons c rest =>
        have unwrapped : ∀ pattern token, extraction.Unwraps pattern token → ¬ pattern <+: c :: rest :=
          fun pattern token unwraps here => wrapped ⟨pattern, token, unwraps, here⟩
        obtain ⟨rest', rfl, more⟩ := replaced.of_kept unwrapped
        have border : Apart extraction.Unwraps (c :: out).reverse rest := by
          rw [List.reverse_cons]
          exact apart.push unwrapped
        rw [fillChars_kept paired other, ih _ (Nat.lt_succ_self _) more border rfl,
          unmaskChars_kept paired (not_reads_of_replaced paired more other), List.reverse_cons, List.append_assoc,
          List.singleton_append]

/-! ## Regions -/

/-- What a text without regions begins with, the text begins with, if it is no token. -/
theorem prefix_of_takeOut {opening closing : Char} {tag : List Char} (absent : opening ∉ tag) (regions : List Region)
    (offset index : Nat) (here : tag <+: (takeOut opening closing regions offset index cs).1) : tag <+: cs := by
  cases regions with
  | nil => exact here
  | cons region regions =>
    obtain ⟨before, source, after, rfl, taken⟩ := takeOut_cons opening closing region regions offset index cs
    rw [taken, List.append_assoc] at here
    have inFront : tag <+: before := by
      obtain inside | ⟨piece, rfl⟩ := List.prefix_or_prefix_of_prefix here (List.prefix_append before _)
      · exact inside
      · rw [List.prefix_append_right_inj] at here
        cases piece with
        | nil => simp
        | cons c piece =>
          obtain ⟨rfl, -⟩ := List.cons_prefix_cons.mp here
          exact absurd (List.mem_append_right before List.mem_cons_self) absent
    rw [List.append_assoc]
    exact inFront.trans (List.prefix_append before _)

/-- A token that stands alone stands for a region that does. -/
theorem exists_region_of_mem_placesFrom (paired : extraction.Paired) {regions : List Region} {front before : List Char}
    {index : Nat} {place : Place} (separable : Separable (front ++ cs) regions)
    (past : ∀ region ∈ regions, Text.byteLength front ≤ region.span.start) (fresh : extraction.opening ∉ cs)
    (numbered : extraction.fragments.drop index =
      (takeOut extraction.opening extraction.closing regions (Text.byteLength front) index cs).2)
    (follows : Follows front before)
    (member : place ∈ extraction.placesFrom before
      (takeOut extraction.opening extraction.closing regions (Text.byteLength front) index cs).1)
    (standing : place.standing = .standalone) :
    ∃ region ∈ regions, region.kind ≠ .mathInline ∧ region.InParagraph (front ++ cs) := by
  induction regions generalizing front before cs index with
  | nil =>
    rw [takeOut, ← List.append_nil cs, placesFrom_append fresh, placesFrom] at member
    cases member
  | cons region regions ih =>
    obtain ⟨gap, part, after, rfl, starts, stops, taken⟩ :=
      separable.takeOut_cons (past region List.mem_cons_self) extraction.opening extraction.closing index
    obtain ⟨others, later⟩ := separable.tail
    rw [taken] at numbered member
    simp only [List.mem_append, not_or] at fresh
    have spells : extraction.Spells 0 _ (tokenChars extraction.opening extraction.closing index) :=
      ⟨index, by rw [← List.head?_drop, numbered, List.head?_cons], rfl⟩
    rw [List.append_assoc, placesFrom_append fresh.1, placesFrom_token paired spells, List.mem_cons] at member
    cases member with
    | inl here =>
      subst here
      obtain ⟨kind, begins, ends⟩ := Place.standing_eq_standalone_iff.mp standing
      have atStart := Text.cut_of_byteLength (front ++ gap) (part ++ after)
      have atStop := Text.cut_of_byteLength (front ++ gap ++ part) after
      rw [starts] at atStart
      rw [stops] at atStop
      refine ⟨region, List.mem_cons_self, kind, ?_, ?_⟩
      · rw [← List.append_assoc, atStart]
        exact follows gap begins
      · rw [← List.append_assoc, ← List.append_assoc, atStop]
        exact prefix_of_takeOut paired.opening_not_mem_stop regions _ _ ends
    | inr behind =>
      rw [← stops] at later
      have others' : Separable (front ++ gap ++ part ++ after) regions := by simpa using others
      have follows' := follows_of_settled (settled_token paired spells (before ++ gap)) (front ++ gap ++ part)
      obtain ⟨next, listed, kind, alone⟩ := ih others' later fresh.2.2
        (by rw [← List.drop_drop, numbered, List.drop_succ_cons, List.drop_zero]) follows' behind
      refine ⟨next, List.mem_cons_of_mem _ listed, kind, ?_⟩
      simpa using alone

/-- A paragraph that gives way to a token holds one that stands alone. -/
theorem exists_place_of_unwraps (paired : extraction.Paired) (unwraps : extraction.Unwraps pattern token)
    (inside : pattern <:+: cs) : ∃ place ∈ extraction.placesFrom [] cs, place.standing = .standalone := by
  obtain ⟨zeros, fragment, spells, kind, rfl⟩ := unwraps
  obtain ⟨body, rfl, -⟩ := spells.exists_body
  obtain ⟨front, back, rfl⟩ := inside
  refine ⟨⟨front ++ paragraphStart, fragment, paragraphStop ++ back⟩, (mem_placesFrom paired).mpr ?_, ?_⟩
  · exact ⟨front ++ paragraphStart, body ++ (paragraphStop ++ back), rfl, by simp, spells.tokenAfter?_eq paired _⟩
  · exact Place.standing_eq_standalone_iff.mpr ⟨kind, List.suffix_append _ _, List.prefix_append _ _⟩

/-! ## Extractions -/

/-- In an extraction of a document no token stands alone, if no region does. -/
theorem not_infix_text {source : String}
    (among : ∀ region ∈ protectedRegions source, region.kind ≠ .mathInline → ¬ region.InParagraph source.toList) :
    ∀ pattern token, (Extraction.ofText source).Unwraps pattern token →
      ¬ pattern <:+: (Extraction.ofText source).text.toList := by
  intro pattern token unwraps inside
  have paired := paired_ofText source
  obtain ⟨place, member, standing⟩ := exists_place_of_unwraps paired unwraps inside
  cases found : freshSentinels? source.toList with
  | none =>
    obtain ⟨zeros, fragment, spells, -, -⟩ := unwraps
    have listed := spells.mem
    rw [ofText_of_no_sentinels found] at listed
    cases listed
  | some pair =>
    have sentinels := sentinels_of_freshSentinels? found
    rw [ofText_of_sentinels found] at member paired
    rw [String.toList_ofList] at member
    have separable : Separable ([] ++ source.toList) (protectedRegions source) := separable_protectedRegions source
    have follows : Follows [] [] := fun _ => id
    obtain ⟨region, listed, kind, alone⟩ := exists_region_of_mem_placesFrom paired separable (fun _ _ => Nat.zero_le _)
      sentinels.openingFresh rfl follows member standing
    exact among region listed kind alone

theorem fill_eq_unmask {source markup stripped : String}
    (replaced : Replaced (Extraction.ofText source).Unwraps markup.toList stripped.toList) :
    (Extraction.ofText source).fill markup (fun fragment _ => fragment.source) =
      (Extraction.ofText source).unmask stripped := by
  have enclosed : ∀ fragment ∈ (Extraction.ofText source).fragments, Enclosed fragment.source.toList :=
    fun fragment member => enclosed_of_mem_fragments member
  rw [fill, unmask, fillChars_sources (paired_ofText source) enclosed replaced (apart_nil _ _), List.reverse_nil,
    List.nil_append]

end Extraction

open Extraction Replaced

/-- If every fragment is filled in as it was written, filling does nothing but to leave out the paragraphs that hold only
    a display formula or a marker, and to put the fragments back. So an extraction that was not converted is filled to the
    document, if the document has no such region directly between the tags of a paragraph. -/
theorem fill_sources (source : String) :
    (∀ markup, ∃ stripped : String,
      (∀ other, Replaced (Extraction.ofText source).Unwraps markup.toList other ↔ other = stripped.toList) ∧
      (Extraction.ofText source).fill markup (fun fragment _ => fragment.source) =
        (Extraction.ofText source).unmask stripped) ∧
    ((∀ region ∈ protectedRegions source, region.kind ≠ .mathInline → ¬ region.InParagraph source.toList) →
      (Extraction.ofText source).fill (Extraction.ofText source).text (fun fragment _ => fragment.source) = source) := by
  have paired := paired_ofText source
  refine ⟨fun markup => ?_, fun among => ?_⟩
  · obtain ⟨out, replaced⟩ := exists_out (begins_unwraps (Extraction.ofText source)) markup.toList
    refine ⟨.ofList out, fun other => ⟨fun replaced' => ?_, fun same => ?_⟩, fill_eq_unmask (by simpa using replaced)⟩
    · rw [String.toList_ofList]
      exact replaced'.unique (begins_unwraps _) (exclusive_unwraps paired) replaced
    · rw [same, String.toList_ofList]
      exact replaced
  · rw [fill_eq_unmask (self (not_infix_text among)), unmask]
    cases found : freshSentinels? source.toList with
    | none =>
      rw [ofText_of_no_sentinels found, unmaskChars_of_no_fragments rfl, String.ofList_toList]
    | some pair =>
      have sentinels := sentinels_of_freshSentinels? found
      rw [ofText_of_sentinels found, String.toList_ofList,
        unmaskChars_takeOut sentinels.closing_not_digit (protectedRegions source) 0 0 _ sentinels.openingFresh rfl,
        String.ofList_toList]

/-- A formula that shares its paragraph with a word leaves the paragraph in the document. -/
theorem shared_paragraph_stays :
    protectedRegions "<p>$$x$$ y</p>" = [⟨⟨3, 8⟩, .mathBlock⟩] ∧
    (∀ region ∈ protectedRegions "<p>$$x$$ y</p>", region.kind ≠ .mathInline →
      ¬ region.InParagraph "<p>$$x$$ y</p>".toList) ∧
    (Extraction.ofText "<p>$$x$$ y</p>").fill (Extraction.ofText "<p>$$x$$ y</p>").text
      (fun fragment _ => fragment.source) = "<p>$$x$$ y</p>" := by
  have regions : protectedRegions "<p>$$x$$ y</p>" = [⟨⟨3, 8⟩, .mathBlock⟩] := by decide +kernel
  have among : ∀ region ∈ protectedRegions "<p>$$x$$ y</p>", region.kind ≠ .mathInline →
      ¬ region.InParagraph "<p>$$x$$ y</p>".toList := by
    rw [regions]
    decide +kernel
  exact ⟨regions, among, (fill_sources _).2 among⟩

/-- A document can lose a paragraph in which it writes nothing but a formula. -/
example : (Extraction.ofText "<p>$$x$$</p>").fill (Extraction.ofText "<p>$$x$$</p>").text
    (fun fragment _ => fragment.source) = "$$x$$" := by decide +kernel

end Galley.Source
