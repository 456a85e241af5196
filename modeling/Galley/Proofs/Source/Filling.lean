import Galley.Proofs.Source.Unmasking

/-!
# Filling and its calls

Filling asks a resolver once for every token that it meets in the markup. What it asks for does not depend
on the answers: it is what a reader of tokens finds, from left to right.

* `Extraction.tokens` — the fragments whose tokens stand in a text;
* `Extraction.fillTrace` — filling together with the calls of the resolver;
* `fragments_fillTrace` — the calls are for the tokens of the markup.
-/

namespace Galley.Source.Extraction

variable {extraction : Extraction}

/-- The fragments whose tokens stand in a text, from left to right. -/
def tokens (extraction : Extraction) : List Char → List Fragment
  | [] => []
  | c :: rest =>
    if c = extraction.opening then
      match h : extraction.tokenAfter? rest with
      | some (fragment, after) =>
        have := length_of_tokenAfter? h
        fragment :: tokens extraction after
      | none => tokens extraction rest
    else
      tokens extraction rest
termination_by cs => cs.length
decreasing_by all_goals (simp only [List.length_cons]; omega)

/-! ## Steps -/

theorem fillChars_of_ne {resolve : Fragment → Standing → String} {c : Char}
    (other : c ≠ extraction.opening) (out rest : List Char) :
    extraction.fillChars resolve out (c :: rest) = extraction.fillChars resolve (c :: out) rest := by
  rw [fillChars, if_neg other]

theorem fillChars_no_token {resolve : Fragment → Standing → String} {rest : List Char}
    (missing : extraction.tokenAfter? rest = none) (out : List Char) :
    extraction.fillChars resolve out (extraction.opening :: rest) =
      extraction.fillChars resolve (extraction.opening :: out) rest := by
  rw [fillChars, if_pos rfl]
  split
  next found => simp [missing] at found
  next => rfl

/-- Whether a token takes the place of its paragraph, and what stands around it then. -/
def placing (fragment : Fragment) (out after : List Char) : Standing × List Char × List Char :=
  match if fragment.kind = .mathInline then none else paragraphAround? out after with
  | some (out', after') => (.standalone, out', after')
  | none => (.inline, out, after)

theorem fillChars_token {resolve : Fragment → Standing → String} {rest after : List Char}
    {fragment : Fragment} (found : extraction.tokenAfter? rest = some (fragment, after))
    (out : List Char) :
    extraction.fillChars resolve out (extraction.opening :: rest) =
      extraction.fillChars resolve
        ((resolve fragment (placing fragment out after).1).toList.reverse ++
          (placing fragment out after).2.1) (placing fragment out after).2.2 := by
  rw [fillChars, if_pos rfl]
  split
  next fragment' after' found' =>
    obtain ⟨rfl, rfl⟩ := Prod.mk.inj (Option.some.inj (found.symm.trans found'))
    unfold placing
    split
    next around => simp only [around]
    next around => simp only [around]
  next missing => simp [found] at missing

theorem length_placing (fragment : Fragment) (out after : List Char) :
    (placing fragment out after).2.2.length ≤ after.length := by
  unfold placing
  split
  next around =>
    split at around
    · cases around
    · exact Nat.le_of_lt (length_of_paragraphAround? around)
  next => exact Nat.le_refl _

/-- The characters of markup with tokens resolved, and the calls of the resolver in their order. `out` is
    what has been written so far, last character first. -/
def fillTrace (extraction : Extraction) (resolve : Fragment → Standing → String) :
    List Char → List Char → List Char × List (Fragment × Standing)
  | out, [] => (out.reverse, [])
  | out, c :: rest =>
    if c = extraction.opening then
      match h : extraction.tokenAfter? rest with
      | some (fragment, after) =>
        have := length_of_tokenAfter? h
        have := length_placing fragment out after
        let placed := placing fragment out after
        let trace := fillTrace extraction resolve
          ((resolve fragment placed.1).toList.reverse ++ placed.2.1) placed.2.2
        (trace.1, (fragment, placed.1) :: trace.2)
      | none => fillTrace extraction resolve (c :: out) rest
    else
      fillTrace extraction resolve (c :: out) rest
termination_by _ cs => cs.length
decreasing_by all_goals (simp only [List.length_cons]; omega)

/-- Filling is the trace without the calls. -/
theorem fillTrace_fst (resolve : Fragment → Standing → String) (out cs : List Char) :
    (extraction.fillTrace resolve out cs).1 = extraction.fillChars resolve out cs := by
  fun_induction fillTrace extraction resolve out cs with
  | case1 out => rw [fillChars]
  | case2 out rest fragment after found _ _ placed trace ih =>
    rw [fillChars_token found, ← ih]
  | case3 out rest missing ih => rw [fillChars_no_token missing, ← ih]
  | case4 out c rest other ih => rw [fillChars_of_ne other, ← ih]

/-! ## Calls -/

/-- Only fragments of the extraction are met. -/
theorem mem_fragments_of_mem_tokens {fragment : Fragment} {cs : List Char}
    (met : fragment ∈ extraction.tokens cs) : fragment ∈ extraction.fragments := by
  fun_induction tokens extraction cs with
  | case1 => cases met
  | case2 rest first after found _ ih =>
    rcases List.mem_cons.mp met with rfl | later
    · exact fragment_mem_of_tokenAfter? found
    · exact ih later
  | case3 rest missing ih => exact ih met
  | case4 c rest other ih => exact ih met

theorem tokens_append {before : List Char} (fresh : extraction.opening ∉ before) (rest : List Char) :
    extraction.tokens (before ++ rest) = extraction.tokens rest := by
  induction before with
  | nil => rfl
  | cons c cs ih =>
    obtain ⟨notOpening, fresh⟩ := not_or.mp (mt List.mem_cons.mpr fresh)
    rw [List.cons_append, tokens, if_neg (Ne.symm notOpening), ih fresh]

/-- The tags of a paragraph hold no token. -/
theorem tokens_placing (isPrivate : 0xe000 ≤ extraction.opening.toNat) (fragment : Fragment)
    (out after : List Char) :
    extraction.tokens (placing fragment out after).2.2 = extraction.tokens after := by
  unfold placing
  split
  next around =>
    split at around
    · cases around
    · unfold paragraphAround? at around
      split at around
      next out' after' =>
        obtain ⟨rfl, rfl⟩ := Prod.mk.inj (Option.some.inj around)
        have fresh : extraction.opening ∉ ['<', '/', 'p', '>'] := fun member => by
          simp only [List.mem_cons, List.not_mem_nil, or_false] at member
          rcases member with same | same | same | same <;> rw [same] at isPrivate <;>
            exact absurd isPrivate (by decide)
        exact (tokens_append fresh _).symm
      next => cases around
  next => rfl

/-- The resolver is called for the tokens of the markup, once for each and in their order. -/
theorem fragments_fillTrace (isPrivate : 0xe000 ≤ extraction.opening.toNat)
    (resolve : Fragment → Standing → String) (out cs : List Char) :
    (extraction.fillTrace resolve out cs).2.map Prod.fst = extraction.tokens cs := by
  fun_induction fillTrace extraction resolve out cs with
  | case1 out => rw [tokens]; rfl
  | case2 out rest fragment after found _ _ placed trace ih =>
    rw [List.map_cons, ih, tokens_placing isPrivate, tokens, if_pos rfl]
    split
    next found' =>
      obtain ⟨rfl, rfl⟩ := Prod.mk.inj (Option.some.inj (found.symm.trans found'))
      rfl
    next missing => simp [found] at missing
  | case3 out rest missing ih =>
    rw [ih, tokens, if_pos rfl]
    split
    next found => simp [missing] at found
    next => rfl
  | case4 out c rest other ih => rw [ih, tokens, if_neg other]

end Galley.Source.Extraction
