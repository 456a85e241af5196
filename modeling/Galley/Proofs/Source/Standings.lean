import Galley.Proofs.Source.Places

/-!
# The standing that a resolver is told

A resolver is told whether a token is all of a paragraph. The stop of the paragraph is looked for in the markup, but its start
in what has been written so far, answers to earlier tokens among it. So an answer can make a paragraph start where the markup
has none: behind an empty one the text before its token runs on into the text behind it.

* `Call` and `Extraction.fillWith` — filling with a resolver that may remember what it was asked, and `fill_eq_fillWith`;
* `Follows`, `Agrees` — a paragraph starts in what was written where one starts in what was read;
* `seals_iff_standings` — an answer that does not seal does harm in some markup;
* `standings_of_calls` — the standing of a token is that in the markup, unless the answer before it does not seal.
-/

namespace Galley.Source

variable {a text gap before written : List Char} {c : Char}

/-! ## Calls -/

/-- A call of a resolver: what it was asked, and what it answered. -/
structure Call where
  fragment : Fragment
  standing : Standing
  answer : String

namespace Extraction

variable {extraction : Extraction} {fragment : Fragment} {zeros : Nat} {token cs rest out after : List Char}

/-- The characters of markup with tokens resolved, and the calls. What the resolver answers may depend on its earlier calls,
    those that were made so far. -/
def fillCalls (extraction : Extraction) (answer : List Call → Fragment → Standing → String) :
    List Call → List Char → List Char → List Char × List Call
  | _, out, [] => (out.reverse, [])
  | made, out, c :: rest =>
    if c = extraction.opening then
      match h : extraction.tokenAfter? rest with
      | some (fragment, after) =>
        have := length_of_tokenAfter? h
        have := length_placing fragment out after
        let placed := placing fragment out after
        let call : Call := ⟨fragment, placed.1, answer made fragment placed.1⟩
        let later := fillCalls extraction answer (made ++ [call]) (call.answer.toList.reverse ++ placed.2.1) placed.2.2
        (later.1, call :: later.2)
      | none => fillCalls extraction answer made (c :: out) rest
    else
      fillCalls extraction answer made (c :: out) rest
termination_by _ _ cs => cs.length
decreasing_by all_goals (simp only [List.length_cons]; omega)

/-- Markup with tokens resolved, and the calls of the resolver in their order. -/
def fillWith (extraction : Extraction) (markup : String) (answer : List Call → Fragment → Standing → String) :
    String × List Call :=
  let run := extraction.fillCalls answer [] [] markup.toList
  (.ofList run.1, run.2)

theorem fillCalls_fst (resolve : Fragment → Standing → String) (made : List Call) (out cs : List Char) :
    (extraction.fillCalls (fun _ => resolve) made out cs).1 = extraction.fillChars resolve out cs := by
  generalize remembers : (fun (_ : List Call) => resolve) = answer
  fun_induction fillCalls extraction answer made out cs with
  | case1 made out => rw [fillChars]
  | case2 made out rest fragment after found _ _ placed call later ih =>
    subst remembers
    rw [fillChars_token found, ← ih]
  | case3 made out rest missing ih => rw [fillChars_no_token missing, ← ih]
  | case4 made out c rest other ih => rw [fillChars_of_ne other, ← ih]

/-- A resolver that does not remember its calls fills as always. -/
theorem fill_eq_fillWith (markup : String) (resolve : Fragment → Standing → String) :
    extraction.fill markup resolve = (extraction.fillWith markup fun _ => resolve).1 := by
  rw [fill, fillWith, fillCalls_fst]

/-- The standing that a resolver is told is that of the token between what was written and what is to be read. -/
theorem placing_cases (fragment : Fragment) (out after : List Char) :
    ((⟨out.reverse, fragment, after⟩ : Place).standing = .inline ∧ placing fragment out after = (.inline, out, after)) ∨
    ((⟨out.reverse, fragment, after⟩ : Place).standing = .standalone ∧
      ∃ out' after', out = paragraphStart.reverse ++ out' ∧ after = paragraphStop ++ after' ∧
        placing fragment out after = (.standalone, out', after')) := by
  unfold placing Place.standing
  by_cases inLine : fragment.kind = .mathInline
  · simp [inLine]
  simp only [inLine, if_false]
  cases around : paragraphAround? out after with
  | some parts =>
    right
    unfold paragraphAround? at around
    split at around
    next out' after' =>
      obtain rfl := Option.some.inj around
      have starts : paragraphStart <:+ ('>' :: 'p' :: '<' :: out').reverse := ⟨out'.reverse, by simp [paragraphStart]⟩
      have stops : paragraphStop <+: '<' :: '/' :: 'p' :: '>' :: after' := ⟨after', rfl⟩
      exact ⟨if_pos ⟨inLine, starts, stops⟩, out', after', rfl, rfl, rfl⟩
    next => cases around
  | none =>
    left
    refine ⟨if_neg ?_, rfl⟩
    rintro ⟨-, starts, stops⟩
    obtain ⟨front, same⟩ := starts
    obtain ⟨back, rfl⟩ := stops
    have out_ : out = paragraphStart.reverse ++ front.reverse := by
      rw [← List.reverse_append, same, List.reverse_reverse]
    rw [out_] at around
    cases around

/-! ## What was written and what was read -/

/-- Whatever comes next, a paragraph starts in what was written where one starts in what was read. -/
def Follows (written before : List Char) : Prop :=
  ∀ gap, paragraphStart <:+ before ++ gap → paragraphStart <:+ written ++ gap

/-- Whatever comes next, a paragraph starts in one of them exactly where one starts in the other. -/
def Agrees (written before : List Char) : Prop :=
  ∀ gap, paragraphStart <:+ written ++ gap ↔ paragraphStart <:+ before ++ gap

theorem Follows.push (follows : Follows out.reverse before) : Follows (c :: out).reverse (before ++ [c]) := by
  intro gap
  simpa only [List.reverse_cons, List.append_assoc] using follows ([c] ++ gap)

theorem Agrees.push (agrees : Agrees out.reverse before) : Agrees (c :: out).reverse (before ++ [c]) := by
  intro gap
  simpa only [List.reverse_cons, List.append_assoc] using agrees ([c] ++ gap)

theorem follows_of_settled (settled : Settled before) (written : List Char) : Follows written before := by
  intro gap starts
  by_cases short : gap.length < 3
  · exact absurd starts (settled gap short)
  · rw [start_suffix_append (Nat.not_lt.mp short)] at starts ⊢
    exact starts

theorem agrees_of_settled (settled : Settled written) (settled' : Settled before) : Agrees written before :=
  fun gap => ⟨follows_of_settled settled before gap, follows_of_settled settled' written gap⟩

theorem settled_token (paired : extraction.Paired) (spells : extraction.Spells zeros fragment token) (before : List Char) :
    Settled (before ++ token) := by
  obtain ⟨index, -, rfl⟩ := spells
  have other : extraction.closing ∉ paragraphStart := fun member => (paired.ne_of_mem_tag (.inl member)).2 rfl
  rw [← List.cons_append, ← List.append_assoc]
  exact settled_of_last other _

/-- Behind a token the text that is still to be read has the same places as the text behind the token, and what was read
    is settled: a stop that is left out with the paragraph holds no token. -/
theorem exists_settled (paired : extraction.Paired) (spells : extraction.Spells zeros fragment token)
    (before out after : List Char) :
    ∃ before', Settled before' ∧ extraction.placesFrom (before ++ token) after =
      extraction.placesFrom before' (placing fragment out after).2.2 := by
  have settled := settled_token paired spells before
  obtain ⟨-, placed⟩ | ⟨-, out', after', -, rfl, placed⟩ := placing_cases fragment out after
  · exact ⟨before ++ token, settled, by rw [placed]⟩
  · refine ⟨before ++ token ++ paragraphStop, settled_stop _, ?_⟩
    rw [placed, placesFrom_append paired.opening_not_mem_stop]

theorem placing_standing (fragment : Fragment) (out after : List Char) :
    (placing fragment out after).1 = (⟨out.reverse, fragment, after⟩ : Place).standing := by
  obtain ⟨standing, placed⟩ | ⟨standing, _, _, -, -, placed⟩ := placing_cases fragment out after <;> rw [placed, standing]

theorem Follows.standing (follows : Follows written before) (fragment : Fragment) (after : List Char) :
    (⟨before, fragment, after⟩ : Place).standing = .standalone →
      (⟨written, fragment, after⟩ : Place).standing = .standalone := by
  have starts := follows []
  simp only [List.append_nil] at starts
  simp only [Place.standing_eq_standalone_iff]
  exact fun ⟨kind, here, stops⟩ => ⟨kind, starts here, stops⟩

theorem Agrees.standing (agrees : Agrees written before) (fragment : Fragment) (after : List Char) :
    (⟨written, fragment, after⟩ : Place).standing = (⟨before, fragment, after⟩ : Place).standing := by
  have starts := agrees []
  simp only [List.append_nil] at starts
  simp only [Place.standing, starts]

/-- The calls are for the tokens of the text, in their order. Each is told the standing in the text, if what was written
    before the first of them agrees with what was read, and if the answers before the others seal. -/
theorem standings_fillCalls (paired : extraction.Paired) (answer : List Call → Fragment → Standing → String)
    (made : List Call) (out before cs : List Char) (follows : Follows out.reverse before) :
    (extraction.fillCalls answer made out cs).2.map Call.fragment =
        (extraction.placesFrom before cs).map Place.fragment ∧
      ∀ n place call, (extraction.placesFrom before cs)[n]? = some place →
        (extraction.fillCalls answer made out cs).2[n]? = some call →
        (place.standing = .standalone → call.standing = .standalone) ∧
        ((n = 0 → Agrees out.reverse before) →
          (∀ m earlier, n = m + 1 → (extraction.fillCalls answer made out cs).2[m]? = some earlier →
            Seals earlier.answer.toList) →
          call.standing = place.standing) := by
  fun_induction fillCalls extraction answer made out cs generalizing before with
  | case1 made out => simp [placesFrom]
  | case2 made out rest fragment after read _ _ placed call later ih =>
    obtain ⟨zeros, token, spells, whole⟩ := (tokenAfter?_eq_some_iff paired).mp read
    obtain ⟨before', settled, same⟩ := exists_settled paired spells before out after
    rw [whole, placesFrom_token paired spells, same]
    obtain ⟨fragments, standings⟩ := ih before' (follows_of_settled settled _)
    refine ⟨by rw [List.map_cons, List.map_cons, fragments], fun n place called there made => ?_⟩
    cases n with
    | zero =>
      obtain rfl := Option.some.inj there
      obtain rfl := Option.some.inj made
      have told : call.standing = (⟨out.reverse, fragment, after⟩ : Place).standing := placing_standing fragment out after
      rw [told]
      exact ⟨follows.standing fragment after, fun agrees _ => (agrees rfl).standing fragment after⟩
    | succ n =>
      obtain ⟨always, exact_⟩ := standings n place called there made
      refine ⟨always, fun _ sealed => exact_ (fun first => ?_) fun m earlier next found => ?_⟩
      · have seals : Seals call.answer.toList := sealed n call rfl (by rw [first]; rfl)
        refine agrees_of_settled ?_ settled
        rw [List.reverse_append, List.reverse_reverse]
        exact seals _
      · exact sealed (m + 1) earlier (by rw [next]) found
  | case3 made out rest missing ih =>
    obtain ⟨fragments, standings⟩ := ih _ follows.push
    rw [placesFrom_no_token missing]
    refine ⟨fragments, fun n place call there made => ?_⟩
    obtain ⟨always, same⟩ := standings n place call there made
    exact ⟨always, fun agrees => same fun first => (agrees first).push⟩
  | case4 made out c rest other ih =>
    obtain ⟨fragments, standings⟩ := ih _ follows.push
    rw [placesFrom_of_ne other]
    refine ⟨fragments, fun n place call there made => ?_⟩
    obtain ⟨always, same⟩ := standings n place call there made
    exact ⟨always, fun agrees => same fun first => (agrees first).push⟩

/-! ## Steps of filling -/

variable {answer : List Call → Fragment → Standing → String} {made : List Call}

theorem fillCalls_append (absent : extraction.opening ∉ text) :
    extraction.fillCalls answer made out (text ++ rest) = extraction.fillCalls answer made (text.reverse ++ out) rest := by
  induction text generalizing out with
  | nil => rfl
  | cons c text ih =>
    obtain ⟨other, absent⟩ := not_or.mp (mt List.mem_cons.mpr absent)
    rw [List.cons_append, fillCalls, if_neg (Ne.symm other), ih absent, List.reverse_cons, List.append_assoc,
      List.singleton_append]

theorem fillCalls_token (paired : extraction.Paired) (spells : extraction.Spells zeros fragment token) :
    extraction.fillCalls answer made out (token ++ after) =
      let placed := placing fragment out after
      let call : Call := ⟨fragment, placed.1, answer made fragment placed.1⟩
      let later := extraction.fillCalls answer (made ++ [call]) (call.answer.toList.reverse ++ placed.2.1) placed.2.2
      (later.1, call :: later.2) := by
  obtain ⟨body, rfl, -⟩ := spells.exists_body
  have read := spells.tokenAfter?_eq paired after
  rw [List.cons_append, fillCalls, if_pos rfl]
  split
  next fragment' after' read' =>
    obtain ⟨rfl, rfl⟩ := Prod.mk.inj (Option.some.inj (read.symm.trans read'))
    rfl
  next missing => cases missing.symm.trans read

/-! ## Answers that do not seal -/

/-- All standings are those of the markup if every answer seals. -/
theorem standings_eq_of_seals (paired : extraction.Paired) (markup : String)
    (seals : ∀ call ∈ (extraction.fillWith markup answer).2, Seals call.answer.toList) :
    (extraction.fillWith markup answer).2.map Call.standing = (extraction.places markup).map Place.standing := by
  have follows : Follows ([] : List Char).reverse [] := fun _ => id
  obtain ⟨fragments, standings⟩ := standings_fillCalls paired answer [] [] [] markup.toList follows
  have lengths := congrArg List.length fragments
  rw [List.length_map, List.length_map] at lengths
  refine List.ext_getElem (by rw [List.length_map, List.length_map]; exact lengths) fun n within within' => ?_
  rw [List.length_map] at within within'
  rw [List.getElem_map, List.getElem_map]
  refine (standings n _ _ (List.getElem?_eq_getElem within') (List.getElem?_eq_getElem within)).2 (fun _ _ => Iff.rfl) ?_
  exact fun m earlier _ found => seals earlier (List.mem_of_getElem? found)

theorem exists_answer {call : Call} (called : call ∈ (extraction.fillCalls answer made out cs).2) :
    ∃ earlier, call.answer = answer earlier call.fragment call.standing := by
  fun_induction fillCalls extraction answer made out cs with
  | case1 => cases called
  | case2 made out rest fragment after read _ _ placed first later ih =>
    cases List.mem_cons.mp called with
    | inl same => exact ⟨made, by rw [same]⟩
    | inr behind => exact ih behind
  | case3 made out rest missing ih => exact ih called
  | case4 made out c rest other ih => exact ih called

/-- What an answer that does not seal lacks of the tag can stand on both sides of it. -/
theorem exists_around (unsealed : ¬ Seals a) : ∃ before gap : List Char,
    before <+: paragraphStart ∧ gap <:+ paragraphStart ∧ gap.length < 3 ∧ paragraphStart <:+ before ++ a ++ gap := by
  rw [seals_iff] at unsealed
  by_cases part : a <:+: paragraphStart
  · obtain ⟨before, gap, split⟩ := part
    by_cases short : gap.length < 3
    · refine ⟨before, gap, ⟨a ++ gap, ?_⟩, ⟨before ++ a, split⟩, short, ⟨[], split.symm⟩⟩
      rw [← List.append_assoc, split]
    · have lengths := congrArg List.length split
      simp only [List.length_append, paragraphStart, List.length_cons, List.length_nil] at lengths
      obtain rfl : a = [] := List.length_eq_zero_iff.mp (by omega)
      exact ⟨paragraphStart, [], List.prefix_rfl, List.nil_suffix, by decide, by simp⟩
  · obtain ⟨piece, some, ⟨gap, split⟩, front, rfl⟩ : ∃ piece : List Char,
        piece ≠ [] ∧ piece <+: paragraphStart ∧ piece <:+ a := by
      by_contra none
      exact unsealed ⟨part, fun piece some starts ends => none ⟨piece, some, starts, ends⟩⟩
    have lengths := congrArg List.length split
    have positive := List.length_pos_iff.mpr some
    simp only [List.length_append, paragraphStart, List.length_cons, List.length_nil] at lengths
    exact ⟨[], gap, List.nil_prefix, ⟨piece, split⟩, by omega, ⟨front, by rw [← split]; simp⟩⟩

/-- In a piece of the tag and a token behind it no paragraph stops. -/
theorem not_stop_of_gap (paired : extraction.Paired) (spells : extraction.Spells zeros fragment token)
    (ends : gap <:+ paragraphStart) (short : gap.length < 3) : ¬ paragraphStop <+: gap ++ (token ++ after) := by
  rintro ⟨behind, same⟩
  cases gap with
  | nil =>
    obtain ⟨body, rfl, -⟩ := spells.exists_body
    exact (paired.ne (by decide)).1 (List.cons.inj same).1
  | cons c gap =>
    obtain rfl := (List.cons.inj same).1
    obtain ⟨front, split⟩ := ends
    have lengths := congrArg List.length split
    simp only [List.length_append, List.length_cons, paragraphStart, List.length_nil] at lengths short
    cases front with
    | nil =>
      rw [List.length_nil] at lengths
      omega
    | cons d front =>
      have inside : '<' ∈ ['p', '>'] := by
        rw [← (List.cons.inj split).2]
        exact List.mem_append_right front List.mem_cons_self
      simp at inside

/-- Where a token stands twice, the second standing is the one behind the answer to the first, if that takes no paragraph. -/
theorem second_call (paired : extraction.Paired) (spells : extraction.Spells zeros fragment token)
    (absent : extraction.opening ∉ before) (absent' : extraction.opening ∉ gap) (text : String)
    (goesOn : ¬ paragraphStop <+: gap ++ (token ++ after)) :
    ((extraction.fillCalls (fun _ _ _ => text) made [] (before ++ (token ++ (gap ++ (token ++ after))))).2.map
      Call.standing)[1]? = some (⟨before ++ text.toList ++ gap, fragment, after⟩ : Place).standing := by
  rw [fillCalls_append absent, fillCalls_token paired spells]
  obtain ⟨-, placed⟩ | ⟨-, _, behind, -, stops, -⟩ := placing_cases fragment (before.reverse ++ [])
      (gap ++ (token ++ after))
  · rw [placed]
    simp only [List.map_cons, List.getElem?_cons_succ]
    rw [fillCalls_append absent', fillCalls_token paired spells]
    simp [placing_standing]
  · exact absurd ⟨behind, stops.symm⟩ goesOn

theorem second_place (paired : extraction.Paired) (spells : extraction.Spells zeros fragment token)
    (absent : extraction.opening ∉ before) (absent' : extraction.opening ∉ gap) :
    ((extraction.placesFrom [] (before ++ (token ++ (gap ++ (token ++ after))))).map Place.standing)[1]? =
      some (⟨before ++ token ++ gap, fragment, after⟩ : Place).standing := by
  rw [placesFrom_append absent, placesFrom_token paired spells, placesFrom_append absent', placesFrom_token paired spells]
  simp

/-- The condition on answers is the right one: a resolver that always gives an answer that does not seal is told another
    standing than that in the markup for some markup, if there is a display formula or a marker at all. -/
theorem seals_iff_standings (paired : extraction.Paired) (member : fragment ∈ extraction.fragments)
    (kind : fragment.kind ≠ .mathInline) (text : String) :
    Seals text.toList ↔ ∀ markup, (extraction.fillWith markup fun _ _ _ => text).2.map Call.standing =
      (extraction.places markup).map Place.standing := by
  constructor
  · intro seals markup
    refine standings_eq_of_seals paired markup fun call called => ?_
    obtain ⟨_, same⟩ := exists_answer called
    rw [same]
    exact seals
  · intro same
    by_contra unsealed
    obtain ⟨before, gap, starts, ends, short, joined⟩ := exists_around unsealed
    obtain ⟨index, numbered⟩ := List.mem_iff_getElem?.mp member
    have spells : extraction.Spells 0 fragment (tokenChars extraction.opening extraction.closing index) :=
      ⟨index, numbered, rfl⟩
    generalize tokenChars extraction.opening extraction.closing index = token at spells
    have absent : extraction.opening ∉ before := fun listed => paired.opening_not_mem_start (starts.subset listed)
    have absent' : extraction.opening ∉ gap := fun listed => paired.opening_not_mem_start (ends.subset listed)
    -- the token twice, with what is missing of the tag around the first answer
    have standings := same (.ofList (before ++ (token ++ (gap ++ (token ++ paragraphStop)))))
    have second := congrArg (·[1]?) standings
    simp only [places, fillWith, String.toList_ofList] at second
    rw [second_place paired spells absent absent',
      second_call paired spells absent absent' text (not_stop_of_gap paired spells ends short), Option.some.injEq] at second
    have alone : (⟨before ++ text.toList ++ gap, fragment, paragraphStop⟩ : Place).standing = .standalone :=
      Place.standing_eq_standalone_iff.mpr ⟨kind, joined, List.prefix_rfl⟩
    obtain ⟨-, begins, -⟩ := Place.standing_eq_standalone_iff.mp (second.symm.trans alone)
    exact settled_token paired spells before gap short begins

/-! ## All calls -/

/-- A resolver is called for the tokens of the markup, once for each and in their order. A token that stands alone in the
    markup is always said to. Any token is said to stand as it does in the markup, unless the answer to the token
    before it does not seal, whatever else was answered. -/
theorem standings_of_calls (paired : extraction.Paired) (markup : String)
    (answer : List Call → Fragment → Standing → String) :
    (∀ resolve, extraction.fill markup resolve = (extraction.fillWith markup fun _ => resolve).1) ∧
    (∀ place, place ∈ extraction.places markup ↔
      extraction.HoldsToken markup place.before place.fragment place.after) ∧
    (extraction.places markup).Pairwise (fun place later => place.before.length < later.before.length) ∧
    (extraction.fillWith markup answer).2.map Call.fragment = (extraction.places markup).map Place.fragment ∧
    ∀ n place call, (extraction.places markup)[n]? = some place → (extraction.fillWith markup answer).2[n]? = some call →
      (place.standing = .standalone → call.standing = .standalone) ∧
      ((∀ m earlier, n = m + 1 → (extraction.fillWith markup answer).2[m]? = some earlier →
          Seals earlier.answer.toList) → call.standing = place.standing) := by
  have follows : Follows ([] : List Char).reverse [] := fun _ => id
  obtain ⟨fragments, standings⟩ := standings_fillCalls paired answer [] [] [] markup.toList follows
  refine ⟨fill_eq_fillWith markup, fun place => mem_places paired, pairwise_places paired [] markup.toList, fragments,
    fun n place call there made => ?_⟩
  obtain ⟨always, same⟩ := standings n place call there made
  exact ⟨always, same fun _ _ => Iff.rfl⟩

theorem ofText_marker_formula : Extraction.ofText "[toc]$$x$$" =
    { text := "\ue0000\ue001\ue0001\ue001"
      fragments := [⟨.contentsMarker, "[toc]", "\ue0000\ue001"⟩, ⟨.mathBlock, "$$x$$", "\ue0001\ue001"⟩]
      opening := '\ue000'
      closing := '\ue001' } := by
  have found : freshSentinels? "[toc]$$x$$".toList = some ('\ue000', '\ue001') := by decide +kernel
  have regions : protectedRegions "[toc]$$x$$" = [⟨⟨0, 5⟩, .contentsMarker⟩, ⟨⟨5, 10⟩, .mathBlock⟩] := by
    have blocks : blockRegions "[toc]$$x$$" (codeZones "[toc]$$x$$") = [⟨5, 10⟩] := by decide +kernel
    have others : inlineRegions "[toc]$$x$$" (codeZones "[toc]$$x$$") [⟨5, 10⟩] = [⟨⟨0, 5⟩, .contentsMarker⟩] := by
      decide +kernel
    rw [protectedRegions, blocks, others]
    simp [List.mergeSort, Region.le]
  rw [ofText_of_sentinels found, regions]
  decide +kernel

/-- A formula that has its paragraph to itself is said to, even if nothing was written for the marker before it. -/
theorem formula_keeps_paragraph :
    (Extraction.ofText "[toc]$$x$$").Paired ∧
    ∀ answer call, ((Extraction.ofText "[toc]$$x$$").fillWith
        "<p>\ue0000\ue001</p><p>\ue0001\ue001</p>" answer).2[1]? = some call → call.standing = .standalone := by
  have there : ((Extraction.ofText "[toc]$$x$$").places "<p>\ue0000\ue001</p><p>\ue0001\ue001</p>")[1]? =
      some ⟨"<p>\ue0000\ue001</p><p>".toList, ⟨.mathBlock, "$$x$$", "\ue0001\ue001"⟩, "</p>".toList⟩ := by
    rw [ofText_marker_formula]
    decide +kernel
  refine ⟨paired_ofText _, fun answer call called => ?_⟩
  obtain ⟨-, -, -, -, standings⟩ := standings_of_calls (paired_ofText "[toc]$$x$$")
    "<p>\ue0000\ue001</p><p>\ue0001\ue001</p>" answer
  exact (standings 1 _ call there called).1 (by decide +kernel)

/-- A marker for which nothing is written hands the start of its paragraph on to the formula behind it, which does not stand
    alone in the markup. -/
theorem empty_answer_moves_formula :
    ((Extraction.ofText "[toc]$$x$$").places "<p>\ue0000\ue001\ue0001\ue001</p>").map Place.standing = [.inline, .inline] ∧
    ((Extraction.ofText "[toc]$$x$$").fillWith "<p>\ue0000\ue001\ue0001\ue001</p>" fun _ fragment _ =>
      if fragment.kind = .contentsMarker then "" else fragment.source).2.map Call.standing = [.inline, .standalone] := by
  rw [ofText_marker_formula]
  decide +kernel

end Extraction
end Galley.Source
