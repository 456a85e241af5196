import Galley.Markdown.Inline
import Galley.Proofs.Markdown.Leaf
import Galley.Proofs.Markdown.Passages

/-!
# Targets in marked texts

What follows a closing bracket, and what stands between angle brackets or grave accents. It has whole tokens,
and it ends behind a character that stands in no token.

* `Kept` — a text made from another one so that tokens at the start stay there;
* `tokened_codeText`, `titleText?_spec` — code in the line and titles;
* `inlineTarget?_spec`, `referenceLabel?_spec` — what follows a closing bracket;
* `Angled`, `autolink?_spec`, `special?_spec`, `tag?_spec` — what stands between angle brackets.
-/

namespace Galley.Markdown

open Galley.Source (Marking isPrivateUse isTokenChar Clear clear_cons clear_nil)

variable {m : Marking} {k : Nat} {cs out rest : List Char}

/-- A text made from another one with whole tokens, so that tokens at the start stay there. -/
structure Kept (m : Marking) (cs out : List Char) : Prop where
  /-- The text is made from the other one. -/
  derived : m.Derived out cs
  /-- Tokens at the start stay there. -/
  starts : ∀ t : List Char, (∀ c ∈ t, isTokenChar c = true) → t <+: cs → t <+: out

namespace Kept

theorem nil : Kept m [] [] := ⟨.done [], fun _ _ here => here⟩

theorem cons {c : Char} (kept : Kept m cs out) : Kept m (c :: cs) (c :: out) where
  derived := .keep (fun _ _ => kept.starts _ fun _ => Marking.isTokenChar_of_mem_body) kept.derived
  starts := by
    intro t all here
    cases t with
    | nil => exact List.nil_prefix
    | cons d ds =>
      obtain ⟨rfl, inside⟩ := List.cons_prefix_cons.mp here
      exact List.cons_prefix_cons.mpr
        ⟨rfl, kept.starts ds (fun e member => all e (List.mem_cons_of_mem _ member)) inside⟩

theorem starts_of_other {c : Char} (other : isTokenChar c = false) (t : List Char)
    (all : ∀ c ∈ t, isTokenChar c = true) (here : t <+: c :: cs) : t <+: out := by
  cases t with
  | nil => exact List.nil_prefix
  | cons d ds =>
    have inToken := all d List.mem_cons_self
    rw [(List.cons_prefix_cons.mp here).1, other] at inToken
    cases inToken

/-- Something else stands for the start of the text, which is no token. -/
theorem change {c : Char} {chars after : List Char} (kept : Kept m after out)
    (other : isTokenChar c = false) (suffix : after <:+ cs) (fresh : m.opening ∉ chars) :
    Kept m (c :: cs) (chars ++ out) where
  derived := by
    obtain ⟨skipped, rfl⟩ := suffix
    exact .insertAll fresh (.skip (.skipAll kept.derived))
  starts := starts_of_other other

/-- Nothing stands for a text that does not begin with a token. -/
theorem done {c : Char} (other : isTokenChar c = false) : Kept m (c :: cs) [] :=
  ⟨.done _, starts_of_other other⟩

end Kept

theorem opening_not_mem_singleton {c : Char} (other : isTokenChar c = false) : m.opening ∉ [c] := fun member =>
  Marking.opening_ne other (List.mem_singleton.mp member).symm

/-! ## Code -/

theorem kept_spaced (inCell : Bool) (cs : List Char) : Kept m cs (codeText.spaced inCell cs) := by
  fun_induction codeText.spaced inCell cs with
  | case1 => exact .nil
  | case2 rest ih =>
    exact ih.change (by decide) (List.suffix_cons _ _) (opening_not_mem_singleton (show isTokenChar ' ' = false by decide))
  | case3 rest cell ih =>
    exact ih.change (by decide) (List.suffix_cons _ _) (opening_not_mem_singleton (show isTokenChar '|' = false by decide))
  | case4 rest cell ih => exact ih.cons.cons
  | case5 c rest _ _ ih =>
    split
    next breaking =>
      exact ih.change (isTokenChar_of_isBreak breaking) (List.suffix_refl _)
        (opening_not_mem_singleton (show isTokenChar ' ' = false by decide))
    next => exact ih.cons

theorem tokened_codeText (inCell : Bool) (whole : m.Tokened cs) : m.Tokened (codeText inCell cs) := by
  have spaced := (kept_spaced inCell cs).derived.tokened whole
  unfold codeText
  simp only
  generalize codeText.spaced inCell cs = text at spaced
  split
  next more front back =>
    split
    · exact spaced
    · obtain ⟨inner, whole⟩ : ∃ inner, ' ' :: more = inner ++ [' '] :=
        ⟨_, by rw [← List.reverse_reverse (' ' :: more), back, List.reverse_cons]⟩
      rw [whole] at spaced ⊢
      cases inner with
      | nil => exact trivial
      | cons c inner =>
        rw [List.cons_append, List.drop_one, List.tail_cons, List.dropLast_concat]
        exact Marking.Tokened.left (b := [' ']) spaced.2 (clear_cons (by decide))
  next => exact spaced

/-! ## Titles and targets -/

theorem suffix_dropSeparator (cs : List Char) : dropSeparator cs <:+ cs := by
  unfold dropSeparator
  simp only
  split
  next => exact List.nil_suffix
  next =>
    refine (List.dropWhile_suffix _).trans (List.IsSuffix.trans ?_ (List.dropWhile_suffix isSpace))
    cases ended : dropLineBreak? (cs.dropWhile isSpace) with
    | none => exact List.suffix_refl _
    | some next => exact (skips_dropLineBreak? ended).suffix

/-- A title is made from the text in front of its closing quote. -/
theorem titleText?_spec {opening closing : Char} (closes : isTokenChar closing = false) {fuel : Nat}
    (unforged : Unforged m.opening cs) (read : titleText? opening closing fuel cs = some (out, rest)) : Kept m cs out ∧ rest <:+ cs := by
  induction fuel generalizing cs out with
  | zero => cases read
  | succ fuel ih =>
    cases cs with
    | nil => cases read
    | cons c cs =>
      have taken : ∀ {chars after : List Char}, after <:+ cs →
          (∀ {inner}, Kept m after inner → Kept m (c :: cs) (chars ++ inner)) →
          (titleText? opening closing fuel after).map (fun pair => (chars ++ pair.1, pair.2)) =
            some (out, rest) → Kept m (c :: cs) out ∧ rest <:+ c :: cs := fun suffix keeps made => by
        obtain ⟨⟨inner, tail⟩, found, same⟩ := Option.map_eq_some_iff.mp made
        obtain ⟨rfl, rfl⟩ := Prod.mk.inj same
        obtain ⟨skipped, rfl⟩ := suffix
        obtain ⟨kept, tailSuffix⟩ := ih unforged.2.right found
        exact ⟨keeps kept, (tailSuffix.trans (List.suffix_append _ _)).trans (List.suffix_cons _ _)⟩
      unfold titleText? at read
      simp only at read
      split at read
      next closed =>
        obtain ⟨rfl, rfl⟩ := Prod.mk.inj (Option.some.inj read)
        exact ⟨.done (by rw [beq_iff_eq.mp closed]; exact closes), List.suffix_cons _ _⟩
      split at read
      next => cases read
      split at read
      next breaking =>
        split at read
        next next ended =>
          have suffix := (List.dropWhile_suffix fun d => d == ' ' || d == '\t').trans (suffix_dropLineBreak? ended)
          exact taken suffix (fun kept => kept.change (isTokenChar_of_isBreak breaking) suffix
            (opening_not_mem_singleton (by decide))) read
        next => cases read
      split at read
      next ampersand =>
        split at read
        next chars after found =>
          obtain ⟨t, rfl, -, -⟩ := reference?_spec found
          have suffix := List.suffix_append t after
          exact taken suffix (fun kept => kept.change (by rw [beq_iff_eq.mp ampersand]; decide) suffix
            (unforged.1 (beq_iff_eq.mp ampersand) chars after found)) read
        next => exact taken (List.suffix_refl _) Kept.cons read
      split at read
      next backslash =>
        split at read
        next d after =>
          split at read
          next punctuation =>
            exact taken (List.suffix_cons _ _)
              (fun kept => kept.change (by rw [beq_iff_eq.mp backslash]; decide) (List.suffix_cons _ _)
                (opening_not_mem_singleton (isTokenChar_of_isAsciiPunctuation punctuation))) read
          next => exact taken (List.suffix_refl _) Kept.cons read
        next => cases read
      next => exact taken (List.suffix_refl _) Kept.cons read

theorem title?_spec (genuine : Genuine m cs) (read : title? cs = some (out, rest)) :
    m.Tokened out ∧ rest <:+ cs := by
  cases cs with
  | nil => cases read
  | cons c cs =>
    unfold title? at read
    simp only at read
    split at read
    next closing ends =>
      have closes : isTokenChar closing = false := by
        have solid := isSolid_of_titleEnd? ends
        simp only [isSolid, Bool.or_eq_false_iff] at solid
        exact solid.1
      obtain ⟨kept, suffix⟩ := titleText?_spec closes genuine.unforged.2 read
      exact ⟨kept.derived.tokened genuine.tokened.2, suffix.trans (List.suffix_cons _ _)⟩
    next => cases read

/-- The target in parentheses ends behind one. -/
theorem inlineTarget?_spec {target : LinkTarget} (genuine : Genuine m cs)
    (read : inlineTarget? cs = some (target, rest)) : target.Whole m ∧ ∃ used, cs = used ++ ')' :: rest := by
  unfold inlineTarget? at read
  split at read
  next body =>
    obtain ⟨⟨destination, after⟩, found, read⟩ := Option.bind_eq_some_iff.mp read
    have separated := (suffix_dropSeparator body).trans (List.suffix_cons '(' body)
    obtain ⟨whole, suffix⟩ := (genuine.suffix separated).destination? found
    have toTitle := (suffix_dropSeparator after).trans (suffix.trans separated)
    have ended (title : List Char) {after : List Char} (titled : m.Tokened title)
        (suffix : ')' :: after <:+ '(' :: body)
        (made : some (LinkTarget.mk (.ofList (unescape destination)) (.ofList title), after) =
          some (target, rest)) :
        target.Whole m ∧ ∃ used, '(' :: body = used ++ ')' :: rest := by
      obtain ⟨rfl, rfl⟩ := Prod.mk.inj (Option.some.inj made)
      obtain ⟨used, split⟩ := suffix
      exact ⟨⟨tokened_unescape whole, by rw [String.toList_ofList]; exact titled⟩, used, split.symm⟩
    cases made : title? (dropSeparator after) with
    | none =>
      simp only [made] at read
      split at read
      next same => exact ended [] trivial (same ▸ toTitle) read
      next => cases read
    | some titled =>
      simp only [made] at read
      obtain ⟨tokened, titleSuffix⟩ := title?_spec (genuine.suffix toTitle) made
      split at read
      next same => exact ended _ tokened (same ▸ ((suffix_dropSeparator _).trans titleSuffix).trans toTitle) read
      next => cases read
  next => cases read

/-- The text of a label. -/
def ReferenceLabel.chars : ReferenceLabel → List Char
  | .link label => label
  | .footnote label => label

/-- A label ends behind its closing bracket, and it holds no more tokens than its text. -/
theorem referenceLabel?_spec {label : ReferenceLabel} (whole : m.Tokened cs)
    (read : referenceLabel? cs = some (label, rest)) :
    m.Tokened label.chars ∧ (∀ k, m.occurrences k label.chars ≤ m.occurrences k cs) ∧
      ∃ used, cs = used ++ ']' :: rest := by
  unfold referenceLabel? at read
  split at read
  next body =>
    have onOneLine : Continues fun _ => none := fun _ _ goesOn => by cases goesOn
    have onMore : Continues some := by
      intro cs next goesOn
      obtain rfl := Option.some.inj goesOn
      exact List.suffix_refl _
    have ofBody : ∀ (front : List Char) {label body' : List Char}, '[' :: body = front ++ body' →
        (m.Tokened label ∧ (∀ k, m.occurrences k label + m.occurrences k rest ≤ m.occurrences k body') ∧
          ∃ used, body' = used ++ ']' :: rest) →
        m.Tokened label ∧ (∀ k, m.occurrences k label ≤ m.occurrences k ('[' :: body)) ∧
          ∃ used, '[' :: body = used ++ ']' :: rest := fun front _ _ split read => by
      obtain ⟨tokened, most, used, rfl⟩ := read
      rw [split]
      have least := fun k => Nat.le_trans (Nat.le_add_right _ _) (most k)
      exact ⟨tokened, fun k => Nat.le_trans (least k) (m.occurrences_right_le _ _), _,
        (List.append_assoc _ _ _).symm⟩
    simp only at read
    split at read
    next label' after found =>
      obtain ⟨rfl, rfl⟩ := Prod.mk.inj (Option.some.inj read)
      split at found
      next => cases found
      next inner _ => exact ofBody ['[', '^'] rfl (label?_spec onOneLine whole.2.2 found)
      next => cases found
    next =>
      obtain ⟨⟨label', after⟩, found, same⟩ := Option.map_eq_some_iff.mp read
      obtain ⟨rfl, rfl⟩ := Prod.mk.inj same
      exact ofBody ['['] rfl (label?_spec onMore whole.2 found)
  next => cases read

/-! ## Between angle brackets -/

/-- The text goes on behind a closing angle bracket. -/
def Angled (cs rest : List Char) : Prop := ∃ used, cs = used ++ '>' :: rest

theorem Angled.of_suffix {cs' : List Char} (angled : Angled cs' rest) (suffix : cs' <:+ cs) : Angled cs rest := by
  obtain ⟨used, rfl⟩ := angled
  obtain ⟨skipped, rfl⟩ := suffix
  exact ⟨skipped ++ used, (List.append_assoc _ _ _).symm⟩

theorem Angled.ended {tail : List Char} (suffix : '>' :: tail <:+ cs) (read : some tail = some rest) :
    Angled cs rest := by
  obtain ⟨used, rfl⟩ := suffix
  exact ⟨used, by rw [Option.some.inj read]⟩

namespace RawHtml

theorem suffix_dropBlanks? {multiline : Bool} (read : dropBlanks? multiline cs = some rest) : rest <:+ cs := by
  fun_induction dropBlanks? multiline cs with
  | case1 => exact Option.some.inj read ▸ List.suffix_refl _
  | case2 c more _ ih => exact (ih read).trans (List.suffix_cons _ _)
  | case3 c more _ _ _ ih => exact (ih read).trans (List.suffix_cons _ _)
  | case4 => cases read
  | case5 => exact Option.some.inj read ▸ List.suffix_refl _

theorem suffix_dropQuoted? {multiline : Bool} {quote : Char} (read : dropQuoted? multiline quote cs = some rest) :
    rest <:+ cs := by
  fun_induction dropQuoted? multiline quote cs with
  | case1 => cases read
  | case2 c more _ => exact Option.some.inj read ▸ List.suffix_cons _ _
  | case3 => cases read
  | case4 c more _ _ ih => exact (ih read).trans (List.suffix_cons _ _)

theorem suffix_dropValue? {multiline : Bool} (read : dropValue? multiline cs = some rest) : rest <:+ cs := by
  unfold dropValue? at read
  split at read
  next => cases read
  split at read
  · exact (suffix_dropQuoted? read).trans (List.suffix_cons _ _)
  split at read
  · cases read
  · exact Option.some.inj read ▸ List.dropWhile_suffix _

theorem suffix_dropAttribute? {multiline : Bool} (read : dropAttribute? multiline cs = some rest) :
    rest <:+ cs := by
  unfold dropAttribute? at read
  split at read
  next => cases read
  next c more =>
    split at read
    next =>
      have named := (List.dropWhile_suffix isNameChar).trans (List.suffix_cons c more)
      obtain ⟨blank, dropped, read⟩ := Option.bind_eq_some_iff.mp read
      have toBlank := (suffix_dropBlanks? dropped).trans named
      split at read
      next value =>
        obtain ⟨start, dropped', read⟩ := Option.bind_eq_some_iff.mp read
        exact (((suffix_dropValue? read).trans (suffix_dropBlanks? dropped')).trans
          (List.suffix_cons '=' value)).trans toBlank
      next => exact Option.some.inj read ▸ named
    next => cases read

theorem dropTagEnd?_spec (read : dropTagEnd? cs = some rest) : Angled cs rest := by
  unfold dropTagEnd? at read
  split at read
  next => exact Option.some.inj read ▸ ⟨['/'], rfl⟩
  next => exact Option.some.inj read ▸ ⟨[], rfl⟩
  next => cases read

theorem dropAttributes?_spec {multiline : Bool} {fuel : Nat} (read : dropAttributes? multiline fuel cs = some rest) :
    Angled cs rest := by
  induction fuel generalizing cs with
  | zero => cases read
  | succ fuel ih =>
    obtain ⟨next, blanks, read⟩ := Option.bind_eq_some_iff.mp read
    have suffix := suffix_dropBlanks? blanks
    split at read
    next => cases read
    next => exact (dropTagEnd?_spec read).of_suffix suffix
    next => exact .ended suffix read
    next =>
      split at read
      next => cases read
      next =>
        obtain ⟨after, dropped, read⟩ := Option.bind_eq_some_iff.mp read
        exact (ih read).of_suffix ((suffix_dropAttribute? dropped).trans suffix)

/-- A tag ends behind a closing bracket. -/
theorem tag?_spec {multiline : Bool} (read : tag? multiline cs = some rest) : Angled cs rest := by
  unfold tag? at read
  split at read
  next c more =>
    split at read
    next =>
      split at read
      next after ended =>
        have suffix : '>' :: after <:+ '/' :: c :: more := by
          rw [← ended]
          exact (((List.dropWhile_suffix _).trans (List.dropWhile_suffix _)).trans (List.suffix_cons c more)).trans
            (List.suffix_cons '/' _)
        exact .ended suffix read
      next => cases read
    next => cases read
  next c more _ =>
    split at read
    next => exact (dropAttributes?_spec read).of_suffix ((List.dropWhile_suffix _).trans (List.suffix_cons c more))
    next => cases read
  next => cases read

theorem dropThrough?_spec (front : List Char) (read : dropThrough? (front ++ ['>']) cs = some rest) :
    Angled cs rest := by
  induction cs with
  | nil => simp [dropThrough?] at read
  | cons c cs ih =>
    unfold dropThrough? at read
    split at read
    next after found =>
      rw [append_of_isPrefixOf? found]
      exact ⟨front, by rw [Option.some.inj read, List.append_assoc]; rfl⟩
    next => exact (ih read).of_suffix (List.suffix_cons c cs)

/-- A comment and the like end behind a closing bracket. -/
theorem special?_spec (read : special? cs = some rest) : Angled cs rest := by
  unfold special? at read
  split at read
  next more => exact (dropThrough?_spec ['?'] read).of_suffix (List.suffix_cons _ _)
  next more =>
    have inside : more <:+ '!' :: '-' :: '-' :: more := List.suffix_append ['!', '-', '-'] more
    split at read
    next => exact .ended inside read
    next => exact .ended ((List.suffix_cons '-' _).trans inside) read
    next => exact (dropThrough?_spec ['-', '-'] read).of_suffix inside
  next more _ =>
    split at read
    next inner found =>
      refine (dropThrough?_spec [']', ']'] read).of_suffix ?_
      rw [append_of_isPrefixOf? found]
      exact (List.suffix_append _ _).trans (List.suffix_cons _ _)
    next =>
      split at read
      next c after _ _ =>
        split at read
        · exact (dropThrough?_spec [] read).of_suffix
            ((List.suffix_cons c after).trans (List.suffix_cons '!' _))
        · cases read
      next => cases read
  next => cases read

theorem suffix_dropHost? {fuel : Nat} (read : dropHost? fuel cs = some rest) : rest <:+ cs := by
  induction fuel generalizing cs with
  | zero => cases read
  | succ fuel ih =>
    unfold dropHost? at read
    simp only at read
    split at read
    next => cases read
    next =>
      have dropped := List.drop_suffix (cs.takeWhile isTagChar).length cs
      split at read
      next more found =>
        exact ((ih read).trans (List.suffix_cons '.' more)).trans (found ▸ dropped)
      next => exact Option.some.inj read ▸ dropped

/-- An address ends in front of the closing bracket. -/
theorem autolink?_spec {mailbox : Bool} (read : autolink? cs = some (out, mailbox, rest)) :
    cs = out ++ '>' :: rest := by
  unfold autolink? at read
  split at read
  next address after found =>
    simp only [Option.some.injEq, Prod.mk.injEq] at read
    obtain ⟨rfl, -, rfl⟩ := read
    unfold address? at found
    simp only at found
    split at found
    next =>
      split at found
      next path schemed =>
        split at found
        next tail ended =>
          obtain ⟨rfl, rfl⟩ := Prod.mk.inj (Option.some.inj found)
          rw [Text.drop_takeWhile] at schemed ended
          conv => lhs; rw [← List.takeWhile_append_dropWhile (l := cs), schemed,
            ← List.takeWhile_append_dropWhile (l := path), ended]
          simp
        next => cases found
      next => cases found
    next => cases found
  next =>
    obtain ⟨⟨address, after⟩, found, same⟩ := Option.map_eq_some_iff.mp read
    simp only [Prod.mk.injEq] at same
    obtain ⟨rfl, -, rfl⟩ := same
    unfold mailbox? at found
    simp only at found
    split at found
    next host _ split =>
      obtain ⟨tail, dropped, found⟩ := Option.bind_eq_some_iff.mp found
      split at found
      next =>
        obtain ⟨rfl, rfl⟩ := Prod.mk.inj (Option.some.inj found)
        have suffix : _ <:+ cs := ((suffix_dropHost? dropped).trans (List.suffix_cons '@' host)).trans
          (split ▸ List.drop_suffix _ cs)
        obtain ⟨used, rfl⟩ := suffix
        rw [List.length_append, List.length_cons, Nat.sub_sub, Nat.add_sub_cancel, List.take_left]
      next => cases found
    next => cases found

end RawHtml
end Galley.Markdown
