import Galley.Proofs.Source.Fragments
import Galley.Proofs.Text.Runs

/-!
# Fragments in revealed texts

Where a token stands in a text, its fragment stands in the text without tokens, whatever is around it.

* `Extraction.HoldsToken`, `Extraction.HoldsToken.unmask` — a text with a token, and the same text without tokens;
* `Enclosed`, `enclosed_of_mem_fragments` — a fragment begins and ends with a delimiter.
-/

namespace Galley.Source

/-- What is left of a text behind such characters goes on to the end of the whole text. -/
theorem drop_takeWhile_append (p : Char → Bool) (cs rest : List Char) :
    (cs ++ rest).drop (cs.takeWhile p).length = cs.drop (cs.takeWhile p).length ++ rest :=
  List.drop_append_of_le_length (List.takeWhile_prefix p).length_le

namespace Extraction

variable {extraction : Extraction}

/-- The sentinels of an extraction are two characters, and neither is a digit. -/
structure Marked (extraction : Extraction) : Prop where
  notDigit : extraction.opening.isDigit = false
  apart : extraction.opening ≠ extraction.closing

theorem marked_ofText (source : String) : (Extraction.ofText source).Marked := by
  cases found : freshSentinels? source.toList with
  | none =>
    rw [ofText_of_no_sentinels found]
    have notDigit : ('\ue000').isDigit = false := by decide
    have apart : '\ue000' ≠ '\ue001' := by decide
    exact ⟨notDigit, apart⟩
  | some pair =>
    obtain ⟨low, next, -⟩ := toNat_of_mem_sentinelPairs (sentinels_of_freshSentinels? found).listed
    rw [ofText_of_sentinels found]
    refine ⟨not_isDigit_of_private low, fun same => ?_⟩
    have numbers := congrArg Char.toNat same
    simp only at numbers
    omega

/-- No token goes beyond the character that begins the next one. -/
theorem tokenAfter?_append (marked : extraction.Marked) (cs rest : List Char) :
    extraction.tokenAfter? (cs ++ extraction.opening :: rest) =
      (extraction.tokenAfter? cs).map fun found => (found.1, found.2 ++ extraction.opening :: rest) := by
  unfold tokenAfter?
  simp only [Text.takeWhile_before marked.notDigit, drop_takeWhile_append]
  cases cs.takeWhile Char.isDigit with
  | nil => rfl
  | cons d ds =>
    cases cs.drop (d :: ds).length with
    | nil => simp [marked.apart]
    | cons c after =>
      by_cases ends : c = extraction.closing
      · simp [ends, Function.comp_def]
      · simp [ends]

/-- What stands before a token is revealed by itself. -/
theorem unmaskChars_append_opening (marked : extraction.Marked) (before rest : List Char) :
    extraction.unmaskChars (before ++ extraction.opening :: rest) =
      extraction.unmaskChars before ++ extraction.unmaskChars (extraction.opening :: rest) := by
  -- Each token of the front part is read as before, because it cannot hold the opening character behind it.
  fun_induction unmaskChars extraction before with
  | case1 => rfl
  | case2 cs fragment after read _ ih =>
    have whole := tokenAfter?_append marked cs rest
    rw [read, Option.map_some] at whole
    rw [List.cons_append, unmaskChars, if_pos rfl]
    split
    next fragment' after' read' =>
      obtain ⟨rfl, rfl⟩ := Prod.mk.inj (Option.some.inj (read'.symm.trans whole))
      rw [ih, List.append_assoc]
    next missing => cases missing.symm.trans whole
  | case3 cs missing ih =>
    have whole := tokenAfter?_append marked cs rest
    rw [missing, Option.map_none] at whole
    rw [List.cons_append, unmaskChars, if_pos rfl]
    split
    next read => cases read.symm.trans whole
    next => rw [ih, List.cons_append]
  | case4 c cs other ih => rw [List.cons_append, unmaskChars, if_neg other, ih, List.cons_append]

/-- The token of a fragment stands in a text, between what is before it and what is behind it. -/
def HoldsToken (extraction : Extraction) (text : String) (before : List Char) (fragment : Fragment)
    (after : List Char) : Prop :=
  ∃ rest, text.toList = before ++ extraction.opening :: rest ∧ extraction.tokenAfter? rest = some (fragment, after)

theorem HoldsToken.mem_fragments {text : String} {before after : List Char} {fragment : Fragment}
    (token : extraction.HoldsToken text before fragment after) : fragment ∈ extraction.fragments := by
  obtain ⟨rest, -, read⟩ := token
  exact fragment_mem_of_tokenAfter? read

/-- Where a token stands in a text, its fragment stands in the text without tokens, as it was written. -/
theorem HoldsToken.unmask {text : String} {before after : List Char} {fragment : Fragment}
    (token : extraction.HoldsToken text before fragment after) (marked : extraction.Marked) :
    extraction.unmask text =
      extraction.unmask (.ofList before) ++ fragment.source ++ extraction.unmask (.ofList after) := by
  obtain ⟨rest, here, read⟩ := token
  have revealed : extraction.unmaskChars (extraction.opening :: rest) =
      fragment.source.toList ++ extraction.unmaskChars after := by
    rw [unmaskChars, if_pos rfl]
    split
    next read' =>
      obtain ⟨rfl, rfl⟩ := Prod.mk.inj (Option.some.inj (read'.symm.trans read))
      rfl
    next missing => cases missing.symm.trans read
  simp only [Extraction.unmask, here, unmaskChars_append_opening marked, revealed, String.ofList_append,
    String.ofList_toList, String.toList_ofList, String.append_assoc]

end Extraction

/-! ## Delimiters -/

/-- A region that begins and ends with an ASCII byte begins and ends with a character. -/
theorem slice_between {source : String} {first last : Nat} {b b' : UInt8} (apart : first < last)
    (opens : (Text.bytes source)[first]? = some b) (closes : (Text.bytes source)[last]? = some b')
    (ascii : b.toNat < 128) (ascii' : b'.toNat < 128) :
    ∃ middle, Text.slice first (last + 1) source.toList =
      Char.ofNat b.toNat :: (middle ++ [Char.ofNat b'.toNat]) := by
  obtain ⟨front, back, whole, rfl, one⟩ := Text.split_at_ascii_byte opens ascii
  obtain ⟨front', back', split, length, one'⟩ := Text.split_at_ascii_byte closes ascii'
  have boundary : Text.IsBoundary ((front ++ [Char.ofNat b.toNat]) ++ back) last :=
    ⟨front', _, by rw [← split, whole]; simp, length⟩
  have past : Text.byteLength (front ++ [Char.ofNat b.toNat]) ≤ last := by
    simp only [Text.byteLength_append, Text.byteLength, one]
    omega
  obtain ⟨middle, rest, rfl, reached⟩ := boundary.after past
  have upToLast : Text.byteLength (front ++ Char.ofNat b.toNat :: middle) = last := by
    simp only [Text.byteLength_append, Text.byteLength] at past reached ⊢
    omega
  have here := Text.cut_of_byteLength (front ++ Char.ofNat b.toNat :: middle) rest
  rw [upToLast, List.append_assoc, List.cons_append, ← whole, split, ← length, Text.cut_of_byteLength] at here
  obtain ⟨-, rfl⟩ := Prod.mk.inj here
  refine ⟨middle, ?_⟩
  have stop : last + 1 = Text.byteLength
      (front ++ (Char.ofNat b.toNat :: (middle ++ [Char.ofNat b'.toNat]))) := by
    rw [← upToLast]
    simp only [Text.byteLength_append, Text.byteLength, one']
    omega
  rw [stop]
  exact slice_of_split back' (by simp [whole])

/-- A text begins and ends with a delimiter: a dollar sign, or a bracket that opens or closes. -/
def Enclosed (cs : List Char) : Prop :=
  ∃ first middle last, cs = first :: (middle ++ [last]) ∧ first ∈ ['$', '['] ∧ last ∈ ['$', ']']

variable {bytes : Array UInt8} {zones : List Span} {pos : Nat} {region : Region} {source : String}

/-- A region begins and ends with the byte of a delimiter. -/
def Region.Enclosed (bytes : Array UInt8) (region : Region) : Prop :=
  ∃ last b b', region.span.stop = last + 1 ∧ region.span.start < last ∧ bytes[region.span.start]? = some b ∧
    bytes[last]? = some b' ∧ Char.ofNat b.toNat ∈ ['$', '['] ∧ Char.ofNat b'.toNat ∈ ['$', ']']

theorem ascii_of_delimiter {b : UInt8} {delimiters : List Char} (listed : Char.ofNat b.toNat ∈ delimiters)
    (ascii : ∀ c ∈ delimiters, c.toNat < 128) : b.toNat < 128 := by
  have below := ascii _ listed
  rwa [toNat_ofNat_of_isValidChar (Or.inl (by have := b.toNat_lt; omega))] at below

/-- A bracket is the small letter of nothing but itself. -/
theorem eq_bracket_of_toLower {c bracket : Char} (listed : bracket ∈ ['[', ']']) (lower : c.toLower = bracket) :
    c = bracket := by
  unfold Char.toLower at lower
  split at lower
  next capital =>
    have small := congrArg (fun d => d.val.toNat) lower
    have other : ∀ d ∈ ['[', ']'], d.val.toNat < 97 := by simp
    have below := other _ listed
    obtain ⟨low, high⟩ := capital
    rw [ge_iff_le, UInt32.le_iff_toNat_le] at low
    rw [UInt32.le_iff_toNat_le] at high
    have first : 'A'.val.toNat = 65 := rfl
    have final : 'Z'.val.toNat = 90 := rfl
    have shift : ('a'.val - 'A'.val).toNat = 32 := rfl
    simp only [UInt32.toNat_add, shift] at small
    omega
  next => exact lower

theorem MarkerAt.enclosed {marker : String} (listed : marker ∈ markerTexts) (found : MarkerAt bytes pos marker) :
    Region.Enclosed bytes ⟨⟨pos, pos + marker.length⟩, .contentsMarker⟩ := by
  have ends : ∀ marker ∈ markerTexts, marker.toList[0]? = some '[' ∧ marker.toList[marker.length - 1]? = some ']' ∧
      1 < marker.length := by decide
  obtain ⟨opens, closes, long⟩ := ends marker listed
  obtain ⟨b, first, lower⟩ := found _ _ opens
  obtain ⟨b', last, lower'⟩ := found _ _ closes
  refine ⟨pos + (marker.length - 1), b, b', ?_, ?_, first, last, ?_, ?_⟩
  · simp only
    omega
  · simp only
    omega
  · rw [eq_bracket_of_toLower (by decide) lower]
    decide
  · rw [eq_bracket_of_toLower (by decide) lower']
    decide

theorem InlineFrom.enclosed {found : List Region} (read : InlineFrom bytes zones pos found) (member : region ∈ found) :
    region.Enclosed bytes := by
  -- A region is a marker or a formula that begins here, or one that is found later.
  induction read with
  | covered _ _ _ ih | other _ _ _ _ _ ih => exact ih member
  | marker outside listed found more ih =>
    cases List.mem_cons.mp member with
    | inl here => exact here ▸ found.enclosed listed
    | inr later => exact ih later
  | @formula pos close regions outside found more ih =>
    cases List.mem_cons.mp member with
    | inl here =>
      rw [here]
      have long := found.body
      exact ⟨close, _, _, rfl, by simp only; omega, found.opens.dollar, found.closes.dollar, by decide, by decide⟩
    | inr later => exact ih later
  | done => cases member

theorem enclosed_of_mem_protectedRegions (member : region ∈ protectedRegions source) :
    region.Enclosed (Text.bytes source) := by
  obtain ⟨blocks, inline, first, second, same, -⟩ := protects_iff.mpr (Eq.refl (protectedRegions source))
  cases List.mem_append.mp (same.mem_iff.mp member) with
  | inl block =>
    obtain ⟨span, listed, rfl⟩ := List.mem_map.mp block
    obtain ⟨close, stop, apart, opens, closes⟩ := first.delimiters listed
    exact ⟨close + 1, _, _, stop, by simp only; omega, opens.dollar.dollar, closes.second, by decide, by decide⟩
  | inr other => exact second.enclosed other

/-- A fragment begins and ends with a delimiter. -/
theorem enclosed_of_mem_fragments {fragment : Fragment} (member : fragment ∈ (Extraction.ofText source).fragments) :
    Enclosed fragment.source.toList := by
  obtain ⟨region, inRegions, -, written⟩ := exists_region_of_mem member
  obtain ⟨last, b, b', stop, apart, opens, closes, first, final⟩ := enclosed_of_mem_protectedRegions inRegions
  have ascii : ∀ c ∈ ['$', '['], c.toNat < 128 := by simp
  have ascii' : ∀ c ∈ ['$', ']'], c.toNat < 128 := by simp
  have low := ascii_of_delimiter first ascii
  have low' := ascii_of_delimiter final ascii'
  obtain ⟨middle, slice⟩ := slice_between apart opens closes low low'
  rw [stop, slice] at written
  exact ⟨_, middle, _, written, first, final⟩

end Galley.Source
