import Galley.Proofs.Source.Grammar
import Galley.Proofs.Source.Unmasking

/-!
# Fragments are the regions of the grammar

Each region of the grammar is taken out as one fragment, in the order of the document, and the formula in it
is what stands between its delimiters.

* `between?_eq_some_iff` — what stands between two delimiters;
* `formula_of_region` — a region that is a formula has its delimiters, and something between them;
* `fragments_follow_grammar` — the fragments of a document are the regions of the grammar;
* `grammar_needs_sentinels` — but not where no sentinels are left for their tokens.
-/

namespace Galley.Source

/-! ## Delimiters -/

theorem between?_eq_some_iff {delimiter cs tex : List Char} :
    between? delimiter cs = some tex ↔ cs = delimiter ++ tex ++ delimiter := by
  simp only [between?, Option.bind_eq_bind, Option.bind_eq_some_iff, Option.pure_def, Option.some.injEq,
    List.isPrefixOf?_eq_some_iff_append_eq]
  constructor
  · rintro ⟨rest, rfl, reversed, turned, rfl⟩
    have back := congrArg List.reverse turned
    rw [List.reverse_append, List.reverse_reverse, List.reverse_reverse] at back
    rw [← back, List.append_assoc]
  · rintro rfl
    exact ⟨tex ++ delimiter, (List.append_assoc _ _ _).symm, tex.reverse, by simp, by simp⟩

variable {source : String} {zones blocks : List Span}

/-- At a place where a dollar sign stands, the text goes on with it. -/
theorem split_at_dollar (front : List Char) {back : List Char} (whole : source.toList = front ++ back)
    (dollar : (Text.bytes source)[Text.byteLength front]? = some dollarByte) :
    ∃ rest, back = '$' :: rest := by
  obtain ⟨front', rest, split, length, -⟩ := Text.split_at_ascii_byte dollar dollarByte_ascii
  have here := Text.cut_of_byteLength front back
  rw [← whole, split, ← length, Text.cut_of_byteLength] at here
  exact ⟨rest, (congrArg Prod.snd here).symm⟩

/-- Between two places where dollar signs stand there is text, if they are apart. -/
theorem split_between (front : List Char) {back : List Char} {close : Nat} (whole : source.toList = front ++ back)
    (after : Text.byteLength front < close) (dollar : (Text.bytes source)[close]? = some dollarByte) :
    ∃ tex rest, tex ≠ [] ∧ back = tex ++ '$' :: rest ∧ Text.byteLength (front ++ tex) = close := by
  obtain ⟨front', rest, split, length, -⟩ := Text.split_at_ascii_byte dollar dollarByte_ascii
  have boundary : Text.IsBoundary (front ++ back) close := ⟨front', _, by rw [← whole, split], length⟩
  obtain ⟨tex, rest', rfl, reached⟩ := boundary.after (Nat.le_of_lt after)
  have total : Text.byteLength (front ++ tex) = close := by
    rw [Text.byteLength_append]
    omega
  obtain ⟨rest, rfl⟩ := split_at_dollar (front ++ tex) (by simpa using whole) (total ▸ dollar)
  refine ⟨tex, rest, fun empty => ?_, rfl, total⟩
  subst empty
  rw [List.append_nil] at total
  omega

theorem slice_of_split {front part : List Char} (back : List Char) (whole : source.toList = front ++ part ++ back) :
    Text.slice (Text.byteLength front) (Text.byteLength (front ++ part)) source.toList = part := by
  rw [Text.slice, whole, List.append_assoc, Text.cut_of_byteLength, Text.byteLength_append,
    Nat.add_sub_cancel_left, Text.cut_of_byteLength]

/-- A display formula has two dollar signs on both sides and something between them. -/
theorem displayFormula_split {start close : Nat}
    (opens : BlockDelimiter (Text.bytes source) zones start)
    (closes : BlockDelimiter (Text.bytes source) zones close) (apart : start + 3 ≤ close) :
    ∃ tex, tex ≠ [] ∧
      Text.slice start (close + 2) source.toList = ['$', '$'] ++ tex ++ ['$', '$'] := by
  obtain ⟨front, back, whole, rfl, -⟩ :=
    Text.split_at_ascii_byte opens.dollar.dollar dollarByte_ascii
  rw [show Char.ofNat dollarByte.toNat = '$' from rfl] at whole
  have one : Text.byteLength ['$'] = 1 := by decide
  have two : Text.byteLength ['$', '$'] = 2 := by decide
  obtain ⟨back, rfl⟩ := split_at_dollar (front ++ ['$']) (by simpa using whole)
    (by rw [Text.byteLength_append, one]; exact opens.second)
  obtain ⟨tex, rest, some, rfl, reached⟩ := split_between (front ++ ['$', '$'])
    (by simpa using whole) (by rw [Text.byteLength_append, two]; omega) closes.dollar.dollar
  obtain ⟨rest, rfl⟩ := split_at_dollar (front ++ ['$', '$'] ++ tex ++ ['$'])
    (by simpa using whole) (by rw [Text.byteLength_append, one, reached]; exact closes.second)
  refine ⟨tex, some, ?_⟩
  have stop : close + 2 = Text.byteLength (front ++ (['$', '$'] ++ tex ++ ['$', '$'])) := by
    rw [← reached]
    simp only [Text.byteLength_append, two]
    omega
  rw [stop]
  exact slice_of_split rest (by simpa using whole)

/-- A formula in the line has a dollar sign on both sides and something between them. -/
theorem inlineFormula_split {start close : Nat} (formula : FormulaAt (Text.bytes source) zones start close) :
    ∃ tex, tex ≠ [] ∧ Text.slice start (close + 1) source.toList = ['$'] ++ tex ++ ['$'] := by
  obtain ⟨front, back, whole, rfl, -⟩ :=
    Text.split_at_ascii_byte formula.opens.dollar dollarByte_ascii
  rw [show Char.ofNat dollarByte.toNat = '$' from rfl] at whole
  have one : Text.byteLength ['$'] = 1 := by decide
  obtain ⟨tex, rest, some, rfl, reached⟩ := split_between (front ++ ['$'])
    (by simpa using whole) (by rw [Text.byteLength_append, one]; exact formula.body) formula.closes.dollar
  refine ⟨tex, some, ?_⟩
  have stop : close + 1 = Text.byteLength (front ++ (['$'] ++ tex ++ ['$'])) := by
    rw [← reached]
    simp only [Text.byteLength_append, one]
    omega
  rw [stop]
  exact slice_of_split rest (by simpa using whole)

/-! ## Regions -/

theorem BlocksFrom.delimiters {bytes : Array UInt8} {pos : Nat} {found : List Span} {span : Span}
    (read : BlocksFrom bytes zones pos found) (member : span ∈ found) :
    ∃ close, span.stop = close + 2 ∧ span.start + 3 ≤ close ∧
      BlockDelimiter bytes zones span.start ∧ BlockDelimiter bytes zones close := by
  induction read with
  | block opens closes more ih =>
    rcases List.mem_cons.mp member with rfl | later
    · exact ⟨_, rfl, closes.after, opens.holds, closes.holds⟩
    · exact ih later
  | done => cases member

theorem InlineFrom.delimiters {bytes : Array UInt8} {pos : Nat} {found : List Region} {region : Region}
    (read : InlineFrom bytes zones pos found) (member : region ∈ found) :
    region.kind = .contentsMarker ∨ (region.kind = .mathInline ∧
      ∃ close, region.span.stop = close + 1 ∧ FormulaAt bytes zones region.span.start close) := by
  induction read with
  | covered _ _ _ ih | other _ _ _ _ _ ih => exact ih member
  | marker _ _ _ _ ih =>
    rcases List.mem_cons.mp member with rfl | later
    · exact Or.inl rfl
    · exact ih later
  | formula _ found _ ih =>
    rcases List.mem_cons.mp member with rfl | later
    · exact Or.inr ⟨rfl, _, rfl, found⟩
    · exact ih later
  | done => cases member

/-- A region that is a formula is its delimiters with something between them. -/
theorem formula_of_region {regions : List Region} {region : Region} (read : Protects source regions)
    (member : region ∈ regions) {delimiter : List Char} {display : Bool}
    (delimited : region.kind.delimiter? = some (delimiter, display)) :
    ∃ tex, tex ≠ [] ∧ Text.slice region.span.start region.span.stop source.toList =
      delimiter ++ tex ++ delimiter := by
  obtain ⟨blocks, inline, first, second, same, -⟩ := read
  rcases List.mem_append.mp (same.mem_iff.mp member) with block | other
  · obtain ⟨span, listed, rfl⟩ := List.mem_map.mp block
    obtain ⟨close, stop, apart, opens, closes⟩ := first.delimiters listed
    obtain ⟨rfl, rfl⟩ := Prod.mk.inj (Option.some.inj delimited)
    simp only [stop]
    exact displayFormula_split opens closes apart
  · rcases second.delimiters other with marker | ⟨inLine, close, stop, formula⟩
    · rw [marker] at delimited
      cases delimited
    · rw [inLine] at delimited
      obtain ⟨rfl, rfl⟩ := Prod.mk.inj (Option.some.inj delimited)
      simp only [stop]
      exact inlineFormula_split formula

/-! ## Fragments -/

theorem kinds_takeOut (opening closing : Char) (regions : List Region) (offset index : Nat) (cs : List Char) :
    (takeOut opening closing regions offset index cs).2.map Fragment.kind = regions.map Region.kind := by
  induction regions generalizing offset index cs with
  | nil => rfl
  | cons region regions ih => simp only [takeOut, List.map_cons, ih]

/-- What a fragment is and how it was written. -/
def Fragment.written (fragment : Fragment) : RegionKind × String := (fragment.kind, fragment.source)

/-- What a region is and what stands there in a document. -/
def Region.written (source : String) (region : Region) : RegionKind × String :=
  (region.kind, String.ofList (Text.slice region.span.start region.span.stop source.toList))

theorem written_ofText {pair : Char × Char} (found : freshSentinels? source.toList = some pair) :
    (Extraction.ofText source).fragments.map Fragment.written =
      (protectedRegions source).map (Region.written source) := by
  have kinds := kinds_takeOut pair.1 pair.2 (protectedRegions source) 0 0 source.toList
  have sources : (takeOut pair.1 pair.2 (protectedRegions source) 0 0 source.toList).2.map Fragment.source =
      (protectedRegions source).map fun region =>
        String.ofList (Text.slice region.span.start region.span.stop source.toList) :=
    @sources_takeOut _ _ _ [] _ 0 (separable_protectedRegions source) fun _ _ => Nat.zero_le _
  rw [ofText_of_sentinels found]
  have zipped := congrArg₂ List.zip kinds sources
  rw [List.zip_map', List.zip_map'] at zipped
  exact zipped

/-- A fragment holds a formula if it is one, and what the formula says is all that stands between its
    delimiters. -/
def Fragment.HoldsFormula (fragment : Fragment) : Prop :=
  match fragment.kind with
  | .mathBlock => ∃ tex, tex ≠ "" ∧ fragment.formula? = some ⟨tex, true⟩ ∧ fragment.source = "$$" ++ tex ++ "$$"
  | .mathInline => ∃ tex, tex ≠ "" ∧ fragment.formula? = some ⟨tex, false⟩ ∧ fragment.source = "$" ++ tex ++ "$"
  | .contentsMarker => fragment.formula? = none

theorem Fragment.formula?_of_split {fragment : Fragment} {delimiter tex : List Char} {display : Bool}
    (delimited : fragment.kind.delimiter? = some (delimiter, display)) (some : tex ≠ [])
    (split : fragment.source.toList = delimiter ++ tex ++ delimiter) :
    ∃ formula : String, formula ≠ "" ∧ fragment.formula? = .some ⟨formula, display⟩ ∧
      fragment.source = .ofList delimiter ++ formula ++ .ofList delimiter := by
  refine ⟨.ofList tex, fun empty => some ?_, ?_, ?_⟩
  · exact (String.toList_ofList.symm.trans (congrArg String.toList empty)).trans rfl
  · have inside := between?_eq_some_iff.mpr split
    simp [Fragment.formula?, delimited, inside]
  · rw [← String.ofList_append, ← String.ofList_append, ← split, String.ofList_toList]

/-- Every fragment was a region of the document. -/
theorem exists_region_of_mem {fragment : Fragment} (member : fragment ∈ (Extraction.ofText source).fragments) :
    ∃ region ∈ protectedRegions source, region.kind = fragment.kind ∧
      fragment.source.toList = Text.slice region.span.start region.span.stop source.toList := by
  cases found : freshSentinels? source.toList with
  | none =>
    rw [ofText_of_no_sentinels found] at member
    cases member
  | some pair =>
    have listed : fragment.written ∈ (Extraction.ofText source).fragments.map Fragment.written :=
      List.mem_map_of_mem member
    rw [written_ofText found] at listed
    obtain ⟨region, inRegions, same⟩ := List.mem_map.mp listed
    simp only [Region.written, Fragment.written, Prod.mk.injEq] at same
    obtain ⟨sameKind, sameSource⟩ := same
    exact ⟨region, inRegions, sameKind, by rw [← sameSource, String.toList_ofList]⟩

theorem holdsFormula_of_mem {fragment : Fragment} (member : fragment ∈ (Extraction.ofText source).fragments) :
    fragment.HoldsFormula := by
  obtain ⟨region, inRegions, sameKind, sameSource⟩ := exists_region_of_mem member
  have formula {delimiter : List Char} {display : Bool}
      (delimited : fragment.kind.delimiter? = some (delimiter, display)) :
      ∃ formula : String, formula ≠ "" ∧ fragment.formula? = some ⟨formula, display⟩ ∧
        fragment.source = .ofList delimiter ++ formula ++ .ofList delimiter := by
    obtain ⟨tex, filled, split⟩ := formula_of_region (protects_iff.mpr rfl) inRegions
      (by rw [sameKind]; exact delimited)
    exact Fragment.formula?_of_split delimited filled (sameSource.trans split)
  unfold Fragment.HoldsFormula
  split
  next kind => exact formula (by rw [kind]; rfl)
  next kind => exact formula (by rw [kind]; rfl)
  next kind => simp [Fragment.formula?, kind, RegionKind.delimiter?]

/-- The fragments of a document are the regions of the grammar, each as it was written and in the order of the
    document, and no other regions are. The document can be cut at their ends, and what each formula says is what
    stands between its delimiters. When the document holds a character of every pair of sentinels, nothing is
    taken out. -/
theorem fragments_follow_grammar (source : String) :
    (∀ fragment ∈ (Extraction.ofText source).fragments, fragment.HoldsFormula) ∧
    ((∀ pair ∈ sentinelPairs, pair.1 ∈ source.toList ∨ pair.2 ∈ source.toList) →
      (Extraction.ofText source).fragments = [] ∧ (Extraction.ofText source).text = source) ∧
    (¬ (∀ pair ∈ sentinelPairs, pair.1 ∈ source.toList ∨ pair.2 ∈ source.toList) →
      ∃ regions, (∀ others, Protects source others ↔ others = regions) ∧
        Separable source.toList regions ∧
        (Extraction.ofText source).fragments.map Fragment.written = regions.map (Region.written source)) := by
  refine ⟨fun _ => holdsFormula_of_mem, fun taken => ?_, fun free => ?_⟩
  · rw [ofText_of_no_sentinels (freshSentinels?_eq_none.mpr taken)]
    exact ⟨rfl, rfl⟩
  · obtain ⟨pair, found⟩ := Option.ne_none_iff_exists'.mp (mt freshSentinels?_eq_none.mp free)
    exact ⟨protectedRegions source, fun _ => protects_iff, separable_protectedRegions source,
      written_ofText found⟩

/-- A formula in code is passed over, and so are a dollar sign behind a backslash and one without a partner. -/
theorem formula_beside_code :
    let source := "`$a$` \\$ $$b$$ [x] $"
    ¬ (∀ pair ∈ sentinelPairs, pair.1 ∈ source.toList ∨ pair.2 ∈ source.toList) ∧
      ∃ regions, (∀ others, Protects source others ↔ others = regions) ∧
        regions.map (Region.written source) = [(.mathBlock, "$$b$$")] := by
  have free : ¬ (∀ pair ∈ sentinelPairs, pair.1 ∈ "`$a$` \\$ $$b$$ [x] $".toList ∨
      pair.2 ∈ "`$a$` \\$ $$b$$ [x] $".toList) := by
    rw [← freshSentinels?_eq_none]
    decide +kernel
  obtain ⟨regions, read, -, same⟩ := (fragments_follow_grammar _).2.2 free
  exact ⟨free, regions, read, by rw [← same]; decide +kernel⟩

/-- Where a document holds a character of every pair of sentinels, its formula stays, though it is a region of
    the grammar. -/
theorem grammar_needs_sentinels :
    let source := String.ofList ("$x$".toList ++ sentinelPairs.map Prod.fst)
    ¬ ∃ regions, Protects source regions ∧
      (Extraction.ofText source).fragments.map Fragment.written = regions.map (Region.written source) := by
  rintro source ⟨regions, ⟨blocks, inline, first, second, same, -⟩, fragments⟩
  have whole : source.toList = "$x$".toList ++ sentinelPairs.map Prod.fst := String.toList_ofList
  have taken : ∀ pair ∈ sentinelPairs, pair.1 ∈ source.toList ∨ pair.2 ∈ source.toList := fun _ listed => by
    rw [whole]
    exact Or.inl (List.mem_append_right _ (List.mem_map_of_mem listed))
  have plain : ∀ c ∈ source.toList, FenceMark.ofChar? c = none := by
    intro c member
    rw [whole] at member
    rcases List.mem_append.mp member with formula | sentinel
    · have letters : ("$x$".toList.all fun c => (FenceMark.ofChar? c).isNone) = true := by decide
      exact Option.isNone_iff_eq_none.mp (List.all_eq_true.mp letters c formula)
    · obtain ⟨pair, listed, rfl⟩ := List.mem_map.mp sentinel
      have high := (toNat_of_mem_sentinelPairs listed).1
      unfold FenceMark.ofChar?
      rw [if_neg (fun same => by rw [same] at high; simp at high),
        if_neg (fun same => by rw [same] at high; simp at high)]
  -- Nothing is taken out, so the grammar would have to find nothing at the formula.
  rw [ofText_of_no_sentinels (freshSentinels?_eq_none.mpr taken), List.map_nil, eq_comm,
    List.map_eq_nil_iff] at fragments
  subst fragments
  obtain ⟨noBlocks, rfl⟩ := List.append_eq_nil_iff.mp (List.nil_perm.mp same)
  rw [List.map_eq_nil_iff.mp noBlocks, codeZones_eq_nil plain] at second
  have byteAt (front : List Char) {back : List Char} {c : Char} (split : "$x$".toList = front ++ c :: back)
      (ascii : c.utf8Size = 1) : (Text.bytes source)[Text.byteLength front]? = some c.val.toUInt8 := by
    have split' : source.toList = front ++ c :: (back ++ sentinelPairs.map Prod.fst) := by
      rw [whole, split]
      simp
    exact Text.getElem?_bytes_of_ascii split' ascii
  have opening : (Text.bytes source)[0]? = some dollarByte := byteAt [] rfl (by decide)
  have body : (Text.bytes source)[1]? = some 0x78 := byteAt ['$'] rfl (by decide)
  have closing : (Text.bytes source)[2]? = some dollarByte := byteAt ['$', 'x'] rfl (by decide)
  have free (q : Nat) : Outside ([] ++ []) q := fun span member => nomatch member
  have formula : FormulaAt (Text.bytes source) ([] ++ []) 0 2 := by
    refine ⟨⟨opening, by simp⟩, by decide, ⟨closing, fun _ => by rw [body]; decide⟩, ?_, ?_, fun q _ _ => free q⟩
    · rintro q after before ⟨dollar, -⟩
      obtain rfl : q = 1 := by omega
      rw [body] at dollar
      cases dollar
    · intro q after before feed
      obtain rfl : q = 1 := by omega
      rw [body] at feed
      cases feed
  cases second with
  | covered _ covered => exact covered (free 0)
  | other _ _ _ noFormula => exact noFormula 2 formula
  | done past => exact absurd formula.opens.inside (by omega)

end Galley.Source
