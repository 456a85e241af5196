import Galley.Proofs.Source.Counting
import Galley.Proofs.Source.Reading

/-!
# Tokens give way to their fragments

A text without tokens is the text with each token replaced by its fragment and all else kept: lone sentinels, numbers of no
fragment and whatever else may stand between two sentinels. As tokens are read by their numbers, this is said of all ways
to write a token. Of the tokens as they were issued it can be said exactly where no other way of writing one occurs.

* `Replaced` — a text in which patterns were replaced from left to right, and `Replaced.unique`, when there is only one;
* `Extraction.Reads`, `Extraction.Issues` — what takes the place of what;
* `replaced_unmaskChars` — what a text without tokens is;
* `Extraction.count_lt` — a token with zeros in front of its number is only replaced where all ways of writing count;
* `unmask_replaces` — both together.
-/

namespace Galley.Source

/-! ## Replacing -/

/-- A text in which patterns were replaced, from left to right. The table says what takes the place of a pattern. -/
inductive Replaced (table : List Char → List Char → Prop) : List Char → List Char → Prop where
  | done : Replaced table [] []
  | found {pattern replacement rest out : List Char} (listed : table pattern replacement)
      (more : Replaced table rest out) : Replaced table (pattern ++ rest) (replacement ++ out)
  | kept {c : Char} {rest out : List Char}
      (other : ∀ pattern replacement, table pattern replacement → ¬ pattern <+: c :: rest)
      (more : Replaced table rest out) : Replaced table (c :: rest) (c :: out)

namespace Replaced

variable {table : List Char → List Char → Prop} {first c : Char}
variable {cs pattern replacement before rest out out' : List Char}

/-- Every pattern begins with the same character. -/
def BeginsWith (table : List Char → List Char → Prop) (first : Char) : Prop :=
  ∀ pattern replacement, table pattern replacement → ∃ tail, pattern = first :: tail

/-- No text begins with two patterns, and none is replaced in two ways. -/
def Exclusive (table : List Char → List Char → Prop) : Prop :=
  ∀ cs pattern replacement pattern' replacement', table pattern replacement → table pattern' replacement' →
    pattern <+: cs → pattern' <+: cs → pattern = pattern' ∧ replacement = replacement'

theorem of_found (begins : BeginsWith table first) (exclusive : Exclusive table) (listed : table pattern replacement)
    (replaced : Replaced table (pattern ++ rest) out) :
    ∃ out', out = replacement ++ out' ∧ Replaced table rest out' := by
  generalize whole : pattern ++ rest = cs at replaced
  cases replaced with
  | done =>
    obtain ⟨tail, rfl⟩ := begins _ _ listed
    cases whole
  | @found pattern' replacement' rest' out' listed' more =>
    obtain ⟨rfl, rfl⟩ := exclusive _ _ _ _ _ listed listed' ⟨rest, whole⟩ (List.prefix_append _ _)
    obtain rfl := List.append_cancel_left whole
    exact ⟨out', rfl, more⟩
  | kept other _ => exact absurd ⟨rest, whole⟩ (other _ _ listed)

theorem of_kept (other : ∀ pattern replacement, table pattern replacement → ¬ pattern <+: c :: rest)
    (replaced : Replaced table (c :: rest) out) : ∃ out', out = c :: out' ∧ Replaced table rest out' := by
  generalize whole : c :: rest = cs at replaced
  cases replaced with
  | done => cases whole
  | found listed _ => exact absurd (whole ▸ List.prefix_append _ _) (other _ _ listed)
  | kept _ more =>
    obtain ⟨rfl, rfl⟩ := List.cons.inj whole
    exact ⟨_, rfl, more⟩

theorem unique (begins : BeginsWith table first) (exclusive : Exclusive table) (replaced : Replaced table cs out)
    (replaced' : Replaced table cs out') : out = out' := by
  induction replaced generalizing out' with
  | done =>
    generalize whole : [] = cs at replaced'
    cases replaced' with
    | done => rfl
    | found listed _ =>
      obtain ⟨tail, rfl⟩ := begins _ _ listed
      cases whole
    | kept => cases whole
  | found listed _ ih =>
    obtain ⟨_, rfl, more⟩ := of_found begins exclusive listed replaced'
    rw [ih more]
  | kept other _ ih =>
    obtain ⟨_, rfl, more⟩ := of_kept other replaced'
    rw [ih more]

theorem not_prefix_cons (begins : BeginsWith table first) (other : c ≠ first) (rest : List Char) :
    ∀ pattern replacement, table pattern replacement → ¬ pattern <+: c :: rest := by
  intro pattern replacement listed here
  obtain ⟨tail, rfl⟩ := begins _ _ listed
  exact other (List.cons_prefix_cons.mp here).1.symm

/-- Where no pattern can begin, everything is kept. -/
theorem of_append (begins : BeginsWith table first) (absent : first ∉ before)
    (replaced : Replaced table (before ++ rest) out) : ∃ out', out = before ++ out' ∧ Replaced table rest out' := by
  induction before generalizing out with
  | nil => exact ⟨out, rfl, replaced⟩
  | cons c before ih =>
    obtain ⟨other, absent⟩ := not_or.mp (mt List.mem_cons.mpr absent)
    obtain ⟨_, rfl, more⟩ := of_kept (not_prefix_cons begins (Ne.symm other) _) replaced
    obtain ⟨out', rfl, rest⟩ := ih absent more
    exact ⟨out', rfl, rest⟩

end Replaced

namespace Extraction

open Replaced

variable {extraction : Extraction} {source : String} {fragment fragment' : Fragment} {zeros zeros' : Nat}
variable {pattern replacement cs rest out out' token token' : List Char}

/-! ## Tokens -/

/-- A token stands for its fragment, however it is written. -/
def Reads (extraction : Extraction) (pattern replacement : List Char) : Prop :=
  ∃ zeros fragment, extraction.Spells zeros fragment pattern ∧ replacement = fragment.source.toList

/-- A token stands for its fragment, written as it was issued. -/
def Issues (extraction : Extraction) (pattern replacement : List Char) : Prop :=
  ∃ fragment ∈ extraction.fragments, pattern = fragment.token.toList ∧ replacement = fragment.source.toList

theorem begins_reads (extraction : Extraction) : BeginsWith extraction.Reads extraction.opening := by
  rintro pattern replacement ⟨zeros, fragment, spells, -⟩
  obtain ⟨body, same, -⟩ := spells.exists_body
  exact ⟨body, same⟩

theorem exclusive_reads (paired : extraction.Paired) : Exclusive extraction.Reads := by
  rintro cs pattern replacement pattern' replacement' ⟨zeros, fragment, spells, rfl⟩
    ⟨zeros', fragment', spells', rfl⟩ here here'
  obtain ⟨same, rfl⟩ := spells.eq_of_prefix paired spells' here here'
  exact ⟨same, rfl⟩

/-- Every token is replaced by its fragment, and nothing else is. -/
theorem replaced_unmaskChars (paired : extraction.Paired) (cs : List Char) :
    Replaced extraction.Reads cs (extraction.unmaskChars cs) := by
  fun_induction unmaskChars extraction cs with
  | case1 => exact .done
  | case2 rest fragment after read _ ih =>
    obtain ⟨zeros, token, spells, whole⟩ := (tokenAfter?_eq_some_iff paired).mp read
    rw [whole]
    exact .found ⟨zeros, fragment, spells, rfl⟩ ih
  | case3 rest missing ih =>
    refine .kept ?_ ih
    rintro pattern _ ⟨zeros, fragment, spells, -⟩ ⟨after, whole⟩
    have read := (tokenAfter?_eq_some_iff paired).mpr ⟨zeros, pattern, spells, whole.symm⟩
    cases missing.symm.trans read
  | case4 c rest other ih => exact .kept (not_prefix_cons extraction.begins_reads other rest) ih

/-! ## Issued tokens -/

theorem token_of_getElem? {index : Nat} (numbered : (Extraction.ofText source).fragments[index]? = some fragment) :
    fragment.token.toList =
      tokenChars (Extraction.ofText source).opening (Extraction.ofText source).closing index := by
  cases found : freshSentinels? source.toList with
  | none =>
    rw [ofText_of_no_sentinels found] at numbered
    cases numbered
  | some pair =>
    rw [ofText_of_sentinels found] at numbered ⊢
    have tokens := (fragments_takeOut pair.1 pair.2 (protectedRegions source) 0 0 source.toList).1
    have here := congrArg (·[index]?) tokens
    simp only [List.getElem?_map, numbered, Option.map_some] at here
    obtain ⟨j, listed, same⟩ := Option.map_eq_some_iff.mp here.symm
    obtain ⟨within, rfl⟩ := List.getElem?_eq_some_iff.mp listed
    rw [← same, String.toList_ofList, List.getElem_range', Nat.zero_add, Nat.one_mul]

/-- The issued tokens are those without zeros in front of the number. -/
theorem issues_iff :
    (Extraction.ofText source).Issues pattern replacement ↔
      ∃ fragment, (Extraction.ofText source).Spells 0 fragment pattern ∧ replacement = fragment.source.toList := by
  constructor
  · rintro ⟨fragment, member, rfl, rfl⟩
    obtain ⟨index, numbered⟩ := List.mem_iff_getElem?.mp member
    exact ⟨fragment, ⟨index, numbered, token_of_getElem? numbered⟩, rfl⟩
  · rintro ⟨fragment, ⟨index, numbered, rfl⟩, rfl⟩
    exact ⟨fragment, List.mem_of_getElem? numbered, (token_of_getElem? numbered).symm, rfl⟩

theorem Issues.reads (issues : (Extraction.ofText source).Issues pattern replacement) :
    (Extraction.ofText source).Reads pattern replacement := by
  obtain ⟨fragment, spells, same⟩ := issues_iff.mp issues
  exact ⟨0, fragment, spells, same⟩

theorem begins_issues (source : String) :
    BeginsWith (Extraction.ofText source).Issues (Extraction.ofText source).opening :=
  fun pattern replacement issues => begins_reads _ pattern replacement issues.reads

theorem exclusive_issues (source : String) : Exclusive (Extraction.ofText source).Issues :=
  fun cs pattern replacement pattern' replacement' issues issues' =>
    exclusive_reads (paired_ofText source) cs pattern replacement pattern' replacement' issues.reads issues'.reads

/-! ## Where the two differ -/

theorem infix_of_append {c : Char} {tail body : List Char} (absent : c ∉ body) (inside : c :: tail <:+: body ++ rest) :
    c :: tail <:+: rest := by
  induction body with
  | nil => exact inside
  | cons d body ih =>
    obtain ⟨other, absent⟩ := not_or.mp (mt List.mem_cons.mpr absent)
    rw [List.cons_append, List.infix_cons_iff] at inside
    cases inside with
    | inl here => exact absurd (List.cons_prefix_cons.mp here).1 other
    | inr behind => exact ih absent behind

theorem Spells.opening_not_mem {body : List Char} (paired : extraction.Paired)
    (spells : extraction.Spells zeros fragment (extraction.opening :: body)) : extraction.opening ∉ body := by
  obtain ⟨body', same, chars⟩ := spells.exists_body
  obtain rfl := (List.cons.inj same).2
  intro member
  cases chars _ member with
  | inl digit =>
    rw [paired.opening_isDigit] at digit
    cases digit
  | inr last => exact paired.marked.apart last

/-- A token that stands in another one and the text behind it is that token or stands in the text. -/
theorem Spells.infix_of_append (paired : extraction.Paired) (spells : extraction.Spells zeros fragment token)
    (spells' : extraction.Spells zeros' fragment' token') (inside : token' <:+: token ++ rest) :
    token' = token ∨ token' <:+: rest := by
  obtain ⟨body, rfl, -⟩ := spells.exists_body
  obtain ⟨body', rfl, -⟩ := spells'.exists_body
  rw [List.cons_append, List.infix_cons_iff] at inside
  cases inside with
  | inl here => exact .inl (spells'.eq_of_prefix paired spells here (List.prefix_append _ rest)).1
  | inr behind => exact .inr (Extraction.infix_of_append (spells.opening_not_mem paired) behind)

/-- Behind the first zero in front of a number there is another digit. -/
theorem Spells.exists_digit (spells : extraction.Spells (zeros + 1) fragment token) :
    ∃ d tail, d.isDigit = true ∧ token = extraction.opening :: '0' :: d :: tail := by
  obtain ⟨index, -, rfl⟩ := spells
  cases digits : List.replicate zeros '0' ++ Nat.toDigits 10 index with
  | nil => exact absurd (List.append_eq_nil_iff.mp digits).2 Nat.toDigits_ne_nil
  | cons d tail =>
    refine ⟨d, tail ++ [extraction.closing], isDigit_of_mem_zeros (digits ▸ List.mem_cons_self), ?_⟩
    rw [List.replicate_succ, List.cons_append, digits]
    rfl

theorem opening_not_mem_source (member : fragment ∈ (Extraction.ofText source).fragments) :
    (Extraction.ofText source).opening ∉ fragment.source.toList := by
  cases found : freshSentinels? source.toList with
  | none =>
    rw [ofText_of_no_sentinels found] at member
    cases member
  | some pair =>
    obtain ⟨m, fits, -⟩ := fits_ofText found
    rw [fits.opening]
    exact fits.fresh fragment member

theorem Spells.mem (spells : extraction.Spells zeros fragment token) : fragment ∈ extraction.fragments := by
  obtain ⟨index, numbered, -⟩ := spells
  exact List.mem_of_getElem? numbered

/-- Of the opening sentinels of a text, more are left when only issued tokens are replaced, if it holds another token. -/
theorem count_lt (reads : Replaced (Extraction.ofText source).Reads cs out)
    (issues : Replaced (Extraction.ofText source).Issues cs out') :
    out.count (Extraction.ofText source).opening ≤ out'.count (Extraction.ofText source).opening ∧
      ∀ zeros fragment token, (Extraction.ofText source).Spells zeros fragment token → token <:+: cs → zeros ≠ 0 →
        out.count (Extraction.ofText source).opening < out'.count (Extraction.ofText source).opening := by
  have paired := paired_ofText source
  induction reads generalizing out' with
  | done =>
    refine ⟨Nat.zero_le _, fun zeros fragment token spells inside => ?_⟩
    obtain ⟨body, rfl, -⟩ := spells.exists_body
    cases List.infix_nil.mp inside
  | @found pattern _ rest out listed _ ih =>
    obtain ⟨zeros, fragment, spells, rfl⟩ := listed
    have silent : fragment.source.toList.count (Extraction.ofText source).opening = 0 :=
      List.count_eq_zero.mpr (opening_not_mem_source spells.mem)
    by_cases issued : zeros = 0
    · subst issued
      obtain ⟨out', rfl, more⟩ := Replaced.of_found (begins_issues source) (exclusive_issues source)
        (issues_iff.mpr ⟨fragment, spells, rfl⟩) issues
      obtain ⟨le, less⟩ := ih more
      simp only [List.count_append, silent, Nat.zero_add]
      refine ⟨le, fun zeros' fragment' token spells' inside padded => ?_⟩
      cases spells.infix_of_append paired spells' inside with
      | inl same => exact absurd ((same ▸ spells).zeros_eq spells') padded
      | inr behind => exact less zeros' fragment' token spells' behind padded
    · -- the token is no issued one, so all of it is kept
      obtain ⟨body, rfl, -⟩ := spells.exists_body
      have absent := spells.opening_not_mem paired
      have kept : ∀ other replacement, (Extraction.ofText source).Issues other replacement →
          ¬ other <+: (Extraction.ofText source).opening :: (body ++ rest) := by
        intro other replacement issued' here
        obtain ⟨fragment', spells', -⟩ := issues_iff.mp issued'
        obtain ⟨rfl, -⟩ := spells'.eq_of_prefix paired spells here (List.prefix_append _ rest)
        exact issued (spells'.zeros_eq spells)
      obtain ⟨_, rfl, behind⟩ := Replaced.of_kept kept issues
      obtain ⟨out', rfl, more⟩ := Replaced.of_append (begins_issues source) absent behind
      obtain ⟨le, -⟩ := ih more
      simp only [List.count_append, silent, List.count_cons_self, Nat.zero_add]
      exact ⟨by omega, fun _ _ _ _ _ _ => by omega⟩
  | @kept c rest out other _ ih =>
    obtain ⟨out', rfl, more⟩ := Replaced.of_kept (fun pattern replacement listed => other pattern replacement listed.reads)
      issues
    obtain ⟨le, less⟩ := ih more
    simp only [List.count_cons]
    refine ⟨by omega, fun zeros fragment token spells inside padded => ?_⟩
    cases List.infix_cons_iff.mp inside with
    | inl here => exact absurd here (other token _ ⟨zeros, fragment, spells, rfl⟩)
    | inr behind =>
      have := less zeros fragment token spells behind padded
      omega

/-- Without such tokens it is enough to replace those that were issued. -/
theorem issues_of_reads (reads : Replaced (Extraction.ofText source).Reads cs out)
    (plain : ∀ zeros fragment token, (Extraction.ofText source).Spells zeros fragment token → token <:+: cs → zeros = 0) :
    Replaced (Extraction.ofText source).Issues cs out := by
  induction reads with
  | done => exact .done
  | found listed _ ih =>
    obtain ⟨zeros, fragment, spells, same⟩ := listed
    obtain rfl := plain zeros fragment _ spells (List.prefix_append _ _).isInfix
    exact .found (issues_iff.mpr ⟨fragment, spells, same⟩) (ih fun zeros fragment token spells inside =>
      plain zeros fragment token spells (inside.trans (List.suffix_append _ _).isInfix))
  | kept other _ ih =>
    exact .kept (fun pattern replacement listed => other pattern replacement listed.reads)
      (ih fun zeros fragment token spells inside =>
        plain zeros fragment token spells (inside.trans (List.suffix_cons _ _).isInfix))

end Extraction

open Extraction

/-- A text without tokens is the text with each token replaced by its fragment, from left to right, and everything else
    kept. Replacing only the tokens as they were issued gives the same exactly if no token of the text is written with
    zeros in front of its number. -/
theorem unmask_replaces (source text : String) :
    (∀ out, Replaced (Extraction.ofText source).Reads text.toList out ↔
      out = ((Extraction.ofText source).unmask text).toList) ∧
    ((∀ out, Replaced (Extraction.ofText source).Issues text.toList out ↔
        out = ((Extraction.ofText source).unmask text).toList) ↔
      ∀ zeros fragment token, (Extraction.ofText source).Spells zeros fragment token → token <:+: text.toList →
        zeros = 0) := by
  have paired := paired_ofText source
  have reads := replaced_unmaskChars paired text.toList
  rw [Extraction.unmask, String.toList_ofList]
  refine ⟨fun out => ⟨fun replaced => ?_, fun same => same ▸ reads⟩, fun all => ?_,
    fun plain out => ⟨fun replaced => ?_, fun same => same ▸ issues_of_reads reads plain⟩⟩
  · exact replaced.unique (begins_reads _) (exclusive_reads paired) reads
  · intro zeros fragment token spells inside
    by_contra padded
    exact absurd ((count_lt reads ((all _).mpr rfl)).2 zeros fragment token spells inside padded) (Nat.lt_irrefl _)
  · exact replaced.unique (begins_issues source) (exclusive_issues source) (issues_of_reads reads plain)

/-- A number of no fragment and a letter behind the sentinel are no tokens, and the sentinels around them stay. -/
theorem stray_sentinels_stay :
    ∀ out, Replaced (Extraction.ofText "$x$").Issues "\ue00099\ue001 \ue000x \ue0000\ue001".toList out ↔
      out = "\ue00099\ue001 \ue000x $x$".toList := by
  have opening : (Extraction.ofText "$x$").opening = '\ue000' := by decide +kernel
  have revealed : (Extraction.ofText "$x$").unmask "\ue00099\ue001 \ue000x \ue0000\ue001" =
      "\ue00099\ue001 \ue000x $x$" := by decide +kernel
  rw [← revealed]
  refine (unmask_replaces "$x$" _).2.mpr fun zeros fragment token spells inside => ?_
  cases zeros with
  | zero => rfl
  | succ zeros =>
    obtain ⟨d, tail, digit, rfl⟩ := spells.exists_digit
    -- the only zero behind a sentinel has the closing one behind it
    have last : d = '\ue001' := by
      simp [opening, List.infix_cons_iff, List.cons_prefix_cons] at inside
      exact inside.1
    subst last
    cases digit

/-- Two zeros between the sentinels are read as the number zero, although no such token was issued. -/
theorem padded_token_is_replaced :
    Replaced (Extraction.ofText "$x$").Issues "\ue00000\ue001".toList "\ue00000\ue001".toList ∧
      (Extraction.ofText "$x$").unmask "\ue00000\ue001" = "$x$" := by
  have issued : (Extraction.ofText "$x$").fragments = [⟨.mathInline, "$x$", "\ue0000\ue001"⟩] := by decide +kernel
  refine ⟨?_, by decide +kernel⟩
  iterate 4
    refine .kept ?_ ?_
    · rintro pattern replacement ⟨fragment, member, rfl, rfl⟩
      rw [issued, List.mem_singleton] at member
      subst member
      decide
  exact .done

end Galley.Source
