import Galley.Proofs.Markdown.Silent
import Galley.Proofs.Shortcode.Reading
import Galley.Proofs.Source.Revealing

/-!
# Shortcodes, tokens and fragments

Replacing shortcodes leaves tokens alone: no token holds a colon, and no pictogram is for private use. A fragment has
the shortcodes that it has by itself, because no shortcode goes beyond its delimiters.

* `afterColon?_spec` — what is read of a shortcode;
* `derived_expand` — a text with its shortcodes replaced is derived from the text;
* `expand_around` — a text between delimiters is expanded by itself.
-/

namespace Galley.Shortcode

open Galley.Source (Marking isPrivateUse isTokenChar drop_takeWhile_append)

variable {m : Marking} {cs : List Char} {c : Char}

theorem glyphs_plain : ∀ entry ∈ glyphs, ∀ c ∈ entry.2.toList, isPrivateUse c = false := by
  have plain : ∀ entry ∈ glyphs, entry.2.toList.any isPrivateUse = false := by decide
  intro entry listed c member
  exact Bool.eq_false_iff.mpr (List.any_eq_false.mp (plain entry listed) c member)

/-- A shortcode gives way to a pictogram, and what follows it is the end of the text. -/
theorem afterColon?_spec {glyph after : List Char} (found : afterColon? cs = some (glyph, after)) :
    m.opening ∉ glyph ∧ after <:+ cs := by
  unfold afterColon? at found
  simp only at found
  split at found
  next rest here =>
    obtain ⟨pictogram, known, same⟩ := Option.map_eq_some_iff.mp found
    obtain ⟨rfl, rfl⟩ := Prod.mk.inj same
    obtain ⟨earlier, later, listed, -⟩ := List.lookup_eq_some_iff.mp known
    have plain := glyphs_plain (String.ofList (cs.takeWhile isNameChar), pictogram) (by
      rw [listed]
      simp)
    refine ⟨Marking.opening_not_mem plain, ?_⟩
    exact (List.suffix_cons ':' rest).trans (here ▸ List.drop_suffix _ _)
  next => cases found

theorem prefix_expandChars {t : List Char} (all : ∀ c ∈ t, isTokenChar c = true) (here : t <+: cs) :
    t <+: expandChars cs := by
  induction t generalizing cs with
  | nil => exact List.nil_prefix
  | cons d ds ih =>
    obtain ⟨tail, rfl⟩ := here
    have inToken := all d List.mem_cons_self
    have notColon : d ≠ ':' := by
      rintro rfl
      exact absurd inToken (by decide)
    rw [List.cons_append, expandChars, if_neg notColon, List.cons_prefix_cons]
    exact ⟨rfl, ih (fun c member => all c (List.mem_cons_of_mem _ member)) (List.prefix_append _ _)⟩

theorem derived_expandChars (cs : List Char) : m.Derived (expandChars cs) cs := by
  fun_induction expandChars cs with
  | case1 => exact .done []
  | case2 rest glyph after found _ ih =>
    obtain ⟨fresh, skipped, rfl⟩ := afterColon?_spec (m := m) found
    exact .insertAll fresh (.skip (.skipAll ih))
  | case3 rest missing ih =>
    exact .keep (fun _ _ => prefix_expandChars fun _ => Marking.isTokenChar_of_mem_body) ih
  | case4 c rest other ih =>
    exact .keep (fun _ _ => prefix_expandChars fun _ => Marking.isTokenChar_of_mem_body) ih

/-- A text with its shortcodes replaced has the tokens of the text. -/
theorem derived_expand (text : String) : m.Derived (expand text).toList text.toList := by
  rw [expand_eq, String.toList_ofList]
  exact derived_expandChars _

/-! ## Texts between delimiters -/

/-- A character at which the name of a shortcode ends, and at which none begins. -/
structure Stops (c : Char) : Prop where
  notName : isNameChar c = false
  notColon : c ≠ ':'

/-- No shortcode goes beyond such a character. -/
theorem afterColon?_append (stops : Stops c) (cs rest : List Char) :
    afterColon? (cs ++ c :: rest) = (afterColon? cs).map fun found => (found.1, found.2 ++ c :: rest) := by
  unfold afterColon?
  simp only [Text.takeWhile_before stops.notName, drop_takeWhile_append]
  cases cs.drop (cs.takeWhile isNameChar).length with
  | nil =>
    split
    next same => exact absurd (List.cons.inj same).1 stops.notColon
    next => rfl
  | cons d rest' =>
    by_cases colon : d = ':'
    · subst colon
      simp [Function.comp_def]
    · simp [colon]

/-- What stands before such a character is expanded by itself. -/
theorem expandChars_append (stops : Stops c) (before rest : List Char) :
    expandChars (before ++ c :: rest) = expandChars before ++ c :: expandChars rest := by
  -- As for tokens: a shortcode of the front part is read as before, and none goes on behind it.
  fun_induction expandChars before with
  | case1 => rw [List.nil_append, expandChars, if_neg stops.notColon, List.nil_append]
  | case2 cs glyph after found _ ih =>
    have whole := afterColon?_append stops cs rest
    rw [found, Option.map_some] at whole
    rw [List.cons_append, expandChars, if_pos rfl]
    split
    next found' =>
      obtain ⟨rfl, rfl⟩ := Prod.mk.inj (Option.some.inj (found'.symm.trans whole))
      rw [ih, List.append_assoc]
    next missing => cases missing.symm.trans whole
  | case3 cs missing ih =>
    have whole := afterColon?_append stops cs rest
    rw [missing, Option.map_none] at whole
    rw [List.cons_append, expandChars, if_pos rfl]
    split
    next found => cases found.symm.trans whole
    next => rw [ih, List.cons_append]
  | case4 d cs other ih => rw [List.cons_append, expandChars, if_neg other, ih, List.cons_append]

theorem expandChars_between {first last : Char} (stops : Stops first) (stops' : Stops last)
    (before middle after : List Char) :
    expandChars (before ++ first :: (middle ++ last :: after)) =
      expandChars before ++ expandChars (first :: (middle ++ [last])) ++ expandChars after := by
  have alone := expandChars_append stops [] (middle ++ [last])
  have end' : expandChars [] = [] := by rw [expandChars]
  rw [List.nil_append, end', List.nil_append] at alone
  rw [expandChars_append stops, expandChars_append stops', alone, expandChars_append stops', end']
  simp

theorem stops_of_delimiter (listed : c ∈ ['$', '[', ']']) : Stops c := by
  simp only [List.mem_cons, List.not_mem_nil, or_false] at listed
  rcases listed with rfl | rfl | rfl <;> exact ⟨by decide, by decide⟩

/-- A text between delimiters has the shortcodes that it has by itself, whatever is around it. -/
theorem expand_around {middle : String} (enclosed : Source.Enclosed middle.toList) (before after : String) :
    expand (before ++ middle ++ after) = expand before ++ expand middle ++ expand after := by
  obtain ⟨first, inner, last, same, opens, closes⟩ := enclosed
  have stops : Stops first := stops_of_delimiter (by simp only [List.mem_cons] at opens ⊢; tauto)
  have stops' : Stops last := stops_of_delimiter (by simp only [List.mem_cons] at closes ⊢; tauto)
  simp only [expand_eq, ← String.ofList_append, String.toList_append, same]
  rw [← expandChars_between stops stops']
  simp

end Galley.Shortcode
