import Galley.Page
import Galley.Proofs.Conversion.Drafting
import Galley.Proofs.Markdown.Parsed

/-!
# Tokens that nobody took out

A character reference can stand for a sentinel. The reader of tokens then finds a token where the document
has none.

* `resolvedFragments` — what the resolver is called for;
* `ForgesNothing` — no reference stands for the opening sentinel;
* `nodup_resolvedFragments` — without such references no fragment is asked for twice;
* `reference_forges_token` — with them one fragment can be asked for twice.
-/

namespace Galley

open Galley.Source (Extraction Fragment Standing Marking Fits)

/-- The fragments for which the resolver is called when a document is converted and filled, in the order of
    the calls. -/
def resolvedFragments (registry : Code.Registry) (ids : Diagram.Naming)
    (resolve : Fragment → Standing → String) (source : String) : List Fragment :=
  let extraction := Extraction.ofText source
  let markup := (convert extraction registry ids).html.toList
  (extraction.fillTrace resolve [] markup).2.map Prod.fst

/-- No character reference outside the protected regions stands for the opening sentinel. -/
def ForgesNothing (extraction : Extraction) : Prop :=
  ∀ front rest, extraction.text.toList = front ++ '&' :: rest →
    ∀ read ∈ Markdown.reference? rest, extraction.opening ∉ read.1

instance decidableForgesNothing (extraction : Extraction) : Decidable (ForgesNothing extraction) :=
  decidable_of_iff _ Markdown.unforged_iff

/-- Without fragments there are no tokens. -/
theorem tokens_of_no_fragments {extraction : Extraction} (untouched : extraction.fragments = [])
    (cs : List Char) : extraction.tokens cs = [] := by
  refine List.eq_nil_iff_forall_not_mem.mpr fun fragment met => ?_
  have member := Extraction.mem_fragments_of_mem_tokens met
  rw [untouched] at member
  cases member

/-- Every token stands in the text once, and neither the parser nor the converter writes it twice. -/
theorem nodup_fillTrace {m : Marking} {extraction : Extraction} {registry : Code.Registry}
    (fits : Fits m extraction)
    (tokens : m.Tokened extraction.text.toList ∧ ∀ k, m.occurrences k extraction.text.toList ≤ 1)
    (forgesNothing : ForgesNothing extraction) (keeps : registry.Keeps) (ids : Diagram.Naming)
    (resolve : Fragment → Standing → String) :
    ((extraction.fillTrace resolve [] (convert extraction registry ids).html.toList).2.map Prod.fst).Nodup := by
  unfold ForgesNothing at forgesNothing
  rw [fits.opening] at forgesNothing
  obtain ⟨recorded, -⟩ := Markdown.recorded_parse ⟨tokens.1, Markdown.unforged_iff.mpr forgesNothing⟩
  have bears := bears_convertEvents fits keeps ids fun event member => (recorded.proper event member).1
  rw [Extraction.fragments_fillTrace fits.isPrivate]
  refine Source.nodup_tokens fits bears.tokened fun k => ?_
  have written := Nat.le_trans (bears.most k) (recorded.most k)
  exact Nat.le_trans written (Nat.le_trans (Nat.sub_le _ _) (tokens.2 k))

/-- The resolver is called at most once for each fragment, if no reference outside the protected regions stands
    for the opening sentinel. -/
theorem nodup_resolvedFragments (registry : Code.Registry) (keeps : registry.Keeps) (ids : Diagram.Naming)
    (resolve : Fragment → Standing → String) (source : String)
    (forgesNothing : ForgesNothing (.ofText source)) :
    (resolvedFragments registry ids resolve source).Nodup := by
  cases found : Source.freshSentinels? source.toList with
  | none =>
    -- Nothing was taken out, so there is no fragment to ask for.
    have untouched := Source.ofText_of_no_sentinels found
    have isPrivate : 0xe000 ≤ (Extraction.ofText source).opening.toNat := by
      rw [untouched]
      exact (by decide : 0xe000 ≤ '\ue000'.toNat)
    unfold resolvedFragments
    rw [Extraction.fragments_fillTrace isPrivate, tokens_of_no_fragments (by rw [untouched])]
    exact List.nodup_nil
  | some pair =>
    obtain ⟨m, fits, tokens⟩ := Source.fits_ofText found
    exact nodup_fillTrace fits tokens forgesNothing keeps ids resolve

/-- References for other characters do no harm. -/
theorem references_beside_formula :
    let registry := Code.Registry.ofDiagramTag usualDiagramLanguage
    let source := "&#36; &amp; [*b*](&#xE001;) $x$"
    registry.Keeps ∧ ForgesNothing (.ofText source) ∧
      (resolvedFragments registry .sequential (fun fragment _ => fragment.source) source).Nodup ∧
      (resolvedFragments registry .sequential (fun fragment _ => fragment.source) source).length = 1 := by
  refine ⟨Code.keeps_ofDiagramTag _, by decide +kernel, ?_, by decide +kernel⟩
  exact nodup_resolvedFragments _ (Code.keeps_ofDiagramTag _) _ _ _ (by decide +kernel)

/-- Two references for the sentinels make a token of the digit between them, and the only formula of the
    document is put into the page twice. -/
theorem reference_forges_token :
    ¬ (resolvedFragments (.ofDiagramTag usualDiagramLanguage) .sequential
      (fun fragment _ => fragment.source) "&#xE000;0&#xE001; $x$").Nodup := by
  decide +kernel

end Galley
