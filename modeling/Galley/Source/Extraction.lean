import Galley.Source.Regions

/-!
# Extraction

Formulas and markers would not survive Markdown, so each protected region is taken out of the document
and a token put in its place. A token is the number of its region between two sentinels, characters
for private use that the document does not hold itself.

* `Fragment` — a region that was taken out, and `Fragment.formula?`, the formula in it;
* `Extraction` — the text with tokens, the fragments and the sentinels;
* `Extraction.ofText` — takes the regions out;
* `Extraction.unmask` — puts the fragments back as they were written;
* `Extraction.fill` — puts something else in the place of each fragment in converted markup.
-/

namespace Galley.Source

/-- The formula inside a fragment. -/
structure Formula where
  /-- What stands between the delimiters. -/
  tex : String
  /-- Whether the formula is on display, and not in the line. -/
  display : Bool
  deriving Repr, DecidableEq

/-- A region that was taken out of a document. -/
structure Fragment where
  /-- What the region is. -/
  kind : RegionKind
  /-- The region as it was written, delimiters included. -/
  source : String
  /-- What stands in its place. -/
  token : String
  deriving Repr, DecidableEq

/-- The delimiter on both sides of a formula, and whether it puts the formula on display. -/
def RegionKind.delimiter? : RegionKind → Option (List Char × Bool)
  | .mathBlock => some (['$', '$'], true)
  | .mathInline => some (['$'], false)
  | .contentsMarker => none

/-- What stands between a delimiter at the start of a text and the same one at its end. -/
def between? (delimiter cs : List Char) : Option (List Char) := do
  let rest ← delimiter.isPrefixOf? cs
  let reversed ← delimiter.reverse.isPrefixOf? rest.reverse
  return reversed.reverse

/-- The formula in a fragment. A marker holds none. -/
def Fragment.formula? (fragment : Fragment) : Option Formula := do
  let (delimiter, display) ← fragment.kind.delimiter?
  let tex ← between? delimiter fragment.source.toList
  return { tex := String.ofList tex, display }

/-- Where a token sits in the converted markup. -/
inductive Standing where
  /-- The token is all of a paragraph, and the tags of the paragraph are gone. -/
  | standalone
  /-- The token stands among other content. -/
  | inline
  deriving Repr, DecidableEq

/-- A document whose protected regions were taken out. -/
structure Extraction where
  /-- The document with tokens in place of the regions. -/
  text : String
  /-- The regions, in the order of the document. -/
  fragments : List Fragment
  /-- The character that begins a token. -/
  opening : Char
  /-- The character that ends a token. -/
  closing : Char
  deriving Repr, DecidableEq

/-- The pairs of characters that can enclose tokens. -/
def sentinelPairs : List (Char × Char) :=
  (List.range 3200).map fun i => (Char.ofNat (0xe000 + 2 * i), Char.ofNat (0xe001 + 2 * i))

/-- The first pair of sentinels of which a text holds neither. -/
def freshSentinels? (cs : List Char) : Option (Char × Char) :=
  let taken := cs.filter fun c => 0xe000 ≤ c.toNat && c.toNat < 0xf900
  sentinelPairs.find? fun (opening, closing) => !taken.contains opening && !taken.contains closing

/-- The token with a number. -/
def tokenChars (opening closing : Char) (index : Nat) : List Char :=
  opening :: (Nat.toDigits 10 index ++ [closing])

/-- A text with tokens in place of some ascending regions, and the fragments. `offset` is the byte at
which the text starts, `index` the number of the first region. -/
def takeOut (opening closing : Char) :
    List Region → Nat → Nat → List Char → List Char × List Fragment
  | [], _, _, cs => (cs, [])
  | region :: regions, offset, index, cs =>
    let (before, rest) := Text.cut (region.span.start - offset) cs
    let (source, after) := Text.cut (region.span.stop - region.span.start) rest
    let token := tokenChars opening closing index
    let (text, fragments) := takeOut opening closing regions region.span.stop (index + 1) after
    (before ++ token ++ text,
      ⟨region.kind, String.ofList source, String.ofList token⟩ :: fragments)

/-- Takes the protected regions out of a document. When every pair of sentinels is in use, nothing is
taken out. -/
def Extraction.ofText (source : String) : Extraction :=
  let cs := source.toList
  match freshSentinels? cs with
  | none => { text := source, fragments := [], opening := '\ue000', closing := '\ue001' }
  | some (opening, closing) =>
    let (text, fragments) := takeOut opening closing (protectedRegions source) 0 0 cs
    { text := String.ofList text, fragments, opening, closing }

namespace Extraction

/-- Whether nothing was taken out. -/
def isEmpty (extraction : Extraction) : Bool := extraction.fragments.isEmpty

/-- Whether a marker for the table of contents was taken out. -/
def asksForContents (extraction : Extraction) : Bool :=
  extraction.fragments.any fun fragment => fragment.kind == .contentsMarker

/-- The fragment of the token that a text continues with after the opening sentinel, and the text after
the token: decimal digits, leading zeros among them, and the closing sentinel. -/
def tokenAfter? (extraction : Extraction) (cs : List Char) : Option (Fragment × List Char) :=
  let digits := cs.takeWhile Char.isDigit
  match digits, cs.drop digits.length with
  | _ :: _, c :: rest =>
    if c = extraction.closing then
      let index := digits.foldl (fun n d => 10 * n + (d.toNat - 48)) 0
      extraction.fragments[index]?.map fun fragment => (fragment, rest)
    else
      none
  | _, _ => none

/-- What follows a token is shorter than what it was read from. -/
theorem length_of_tokenAfter? {extraction : Extraction} {cs rest : List Char} {fragment : Fragment}
    (h : extraction.tokenAfter? cs = some (fragment, rest)) : rest.length < cs.length := by
  simp only [tokenAfter?] at h
  split at h
  · rename_i d ds c after hdigits hrest
    split at h
    · simp only [Option.map_eq_some_iff, Prod.mk.injEq] at h
      obtain ⟨_, _, _, rfl⟩ := h
      have := congrArg List.length hrest
      simp at this
      omega
    · simp at h
  · simp at h

/-- The characters of a text with the fragment in place of each token. -/
def unmaskChars (extraction : Extraction) : List Char → List Char
  | [] => []
  | c :: rest =>
    if c = extraction.opening then
      match h : extraction.tokenAfter? rest with
      | some (fragment, after) =>
        have := length_of_tokenAfter? h
        fragment.source.toList ++ unmaskChars extraction after
      | none => c :: unmaskChars extraction rest
    else
      c :: unmaskChars extraction rest
termination_by cs => cs.length
decreasing_by all_goals (simp only [List.length_cons]; omega)

/-- A text with the fragment in place of each token. -/
def unmask (extraction : Extraction) (text : String) : String :=
  .ofList (extraction.unmaskChars text.toList)

/-- What was written before a token and what follows it, without the tags of the paragraph that holds
only the token. -/
def paragraphAround? : List Char → List Char → Option (List Char × List Char)
  | '>' :: 'p' :: '<' :: out, '<' :: '/' :: 'p' :: '>' :: after => some (out, after)
  | _, _ => none

/-- Past the end of its paragraph a token has less after it. -/
theorem length_of_paragraphAround? {out after out' after' : List Char}
    (h : paragraphAround? out after = some (out', after')) : after'.length < after.length := by
  unfold paragraphAround? at h
  split at h
  · simp only [Option.some.injEq, Prod.mk.injEq] at h
    obtain ⟨_, rfl⟩ := h
    simp
    omega
  · simp at h

/-- The characters of markup with tokens resolved. `out` is what has been written so far, last
character first: a paragraph tag just before a token is taken back from it. -/
def fillChars (extraction : Extraction) (resolve : Fragment → Standing → String) :
    List Char → List Char → List Char
  | out, [] => out.reverse
  | out, c :: rest =>
    if c = extraction.opening then
      match h : extraction.tokenAfter? rest with
      | some (fragment, after) =>
        have := length_of_tokenAfter? h
        match h' : if fragment.kind = .mathInline then none else paragraphAround? out after with
        | some (out', after') =>
          have : after'.length < after.length := by
            split at h'
            · simp at h'
            · exact length_of_paragraphAround? h'
          fillChars extraction resolve
            ((resolve fragment .standalone).toList.reverse ++ out') after'
        | none =>
          fillChars extraction resolve
            ((resolve fragment .inline).toList.reverse ++ out) after
      | none => fillChars extraction resolve (c :: out) rest
    else
      fillChars extraction resolve (c :: out) rest
termination_by _ cs => cs.length
decreasing_by all_goals (simp only [List.length_cons]; omega)

/-- Converted markup with each token replaced by what `resolve` makes of its fragment. A display
formula or a marker that is all of a paragraph takes the place of the whole paragraph. -/
def fill (extraction : Extraction) (markup : String)
    (resolve : Fragment → Standing → String) : String :=
  .ofList (extraction.fillChars resolve [] markup.toList)

end Extraction

end Galley.Source
