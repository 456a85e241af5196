import Galley.Proofs.Markdown.Cutting
import Galley.Proofs.Markdown.Nested
import Galley.Proofs.Markdown.Pairing
import Galley.Proofs.Markdown.Targets
import Galley.Proofs.Markdown.Written

/-!
# The content of marked blocks

Every token of the line is used once: as text, as markup, as code, in a target or in a label. So the pieces of a
block hold no token of an extraction more often than its text does. The open brackets carry what is in front of
them, and each of them must be paid for by the text up to its own place, because the label of a footnote
stands for everything that follows it.

* `Piece.Whole`, `loadOf` — the tokens of pieces;
* `Account` — what open brackets carry is paid for;
* `closing_spec`, `angleNode?_spec` — links and markup;
* `resolve_spec` — the pieces of some tokens;
* `nodes_spec` — the events of a block of text.
-/

namespace Galley.Markdown

open Galley.Source (Marking isPrivateUse isTokenChar Clear clear_cons clear_nil)

variable {m : Marking} {k : Nat} {cs : List Char} {passage : Passage} {definitions : Definitions}
  {brackets : List Bracket} {inside : List Piece} {place : Nat}

/-! ## Pieces -/

/-- How often the token with a number stands in a piece. -/
def Node.load (m : Marking) (k : Nat) (node : Node) : Nat := (node.events.map (Event.load m k)).sum

/-- How often the token with a number stands in a piece; delimiters stand in none. -/
def Piece.load (m : Marking) (k : Nat) (piece : Piece) : Nat := piece.sum (Node.load m k)

/-- How often the token with a number stands in some pieces. -/
def loadOf (m : Marking) (k : Nat) (pieces : List Piece) : Nat := (pieces.map (Piece.load m k)).sum

/-- A reference leads to a footnote of the document. -/
def Event.Refers (definitions : Definitions) : Event → Prop
  | .footnoteReference label => definitions.hasFootnote label.toList = true
  | _ => True

/-- An event with whole tokens that leads to a footnote if it is a reference. -/
def Event.Proper (m : Marking) (definitions : Definitions) (event : Event) : Prop :=
  event.Whole m ∧ event.Refers definitions

/-- A piece belongs in a line, and its tokens are whole. -/
structure Node.Whole (m : Marking) (definitions : Definitions) (node : Node) : Prop where
  /-- It belongs in a line. -/
  faultless : node.faults = 0
  /-- Its tokens are whole, and its references lead to footnotes. -/
  events : ∀ event ∈ node.events, event.Proper m definitions

/-- The same of a piece or a run of delimiters, which stand in no token. -/
def Piece.Whole (m : Marking) (definitions : Definitions) : Piece → Prop
  | .node piece => piece.Whole m definitions
  | .delimiters run => isTokenChar run.mark = false

@[simp]
theorem loadOf_cons (piece : Piece) (rest : List Piece) :
    loadOf m k (piece :: rest) = piece.load m k + loadOf m k rest := by
  simp [loadOf]

@[simp]
theorem loadOf_append (front back : List Piece) :
    loadOf m k (front ++ back) = loadOf m k front + loadOf m k back := by
  simp [loadOf]

theorem Piece.Whole.plain {piece : Piece} (whole : piece.Whole m definitions) :
    piece.Plain (isTokenChar · = false) := by
  cases piece with
  | node => trivial
  | delimiters => exact whole

theorem load_leaf (event : Event) : (Piece.node (.leaf event)).load m k = event.load m k := by
  simp [Piece.load, Piece.sum, Node.load, Node.events]

theorem whole_leaf {event : Event} (isLeaf : event.isLeaf = true) (proper : event.Proper m definitions) :
    (Piece.node (.leaf event)).Whole m definitions :=
  ⟨if_pos isLeaf, fun _ member => List.mem_singleton.mp member ▸ proper⟩

theorem load_text (cs : List Char) : (Piece.node (.text cs)).load m k = m.occurrences k cs := by
  rw [Node.text, load_leaf, Event.load, String.toList_ofList]

theorem whole_text (whole : m.Tokened cs) : (Piece.node (.text cs)).Whole m definitions :=
  whole_leaf rfl ⟨by rw [Event.Whole, String.toList_ofList]; exact whole, trivial⟩

theorem load_text_of_not_mem (fresh : m.opening ∉ cs) : (Piece.node (.text cs)).load m k = 0 := by
  rw [load_text, Marking.occurrences_of_not_mem fresh]

theorem opening_not_mem_of_plain (plain : cs.all (fun c => !isPrivateUse c) = true) : m.opening ∉ cs :=
  Marking.opening_not_mem fun c member => by simpa using List.all_eq_true.mp plain c member

/-! ## Emphasis -/

theorem sum_eventsOf (f : Event → Nat) (nodes : List Node) :
    ((Node.eventsOf nodes).map f).sum = sumOf (fun node => (node.events.map f).sum) nodes := by
  induction nodes with
  | nil => rfl
  | cons node rest ih => simp [Node.eventsOf, ih]

theorem sum_span (f : Event → Nat) (tag : Tag) (content : List Node) :
    ((Node.span tag content).events.map f).sum =
      f (.start tag) + sumOf (fun node => (node.events.map f).sum) content + f (.stop tag) := by
  simp [Node.events, sum_eventsOf]
  omega

/-- What does not count emphasis among events does not count it among pieces. -/
theorem unmarked_of_events {p : Char → Prop} {f : Event → Nat}
    (free : ∀ tag, tag = .emphasis ∨ tag = .strong ∨ tag = .strikethrough →
      f (.start tag) = 0 ∧ f (.stop tag) = 0)
    (delimiters : ∀ (count : Nat) (mark : Char), p mark → f (.text (.ofList (List.replicate count mark))) = 0) :
    Unmarked p fun node => (node.events.map f).sum := by
  have span : ∀ tag, tag = .emphasis ∨ tag = .strong ∨ tag = .strikethrough → ∀ content,
      ((Node.span tag content).events.map f).sum = sumOf (fun node => (node.events.map f).sum) content :=
    fun tag kind content => by
      rw [sum_span, (free tag kind).1, (free tag kind).2]
      omega
  exact ⟨span _ (.inl rfl), span _ (.inr (.inl rfl)), span _ (.inr (.inr rfl)), fun count mark other => by
    simpa [Node.text, Node.events] using delimiters count mark other⟩

theorem unmarked_load (m : Marking) (k : Nat) : Unmarked (isTokenChar · = false) (Node.load m k) := by
  refine unmarked_of_events (fun tag kind => ?_) fun count mark other => ?_
  · rcases kind with rfl | rfl | rfl <;> exact ⟨rfl, rfl⟩
  · rw [Event.load, String.toList_ofList]
    exact Marking.occurrences_of_not_mem (opening_not_mem_replicate other count)

theorem faultsOf_eq (nodes : List Node) : Node.faultsOf nodes = sumOf Node.faults nodes := by
  induction nodes with
  | nil => rfl
  | cons node rest ih => rw [Node.faultsOf, ih, sumOf_cons]

theorem unmarked_faults (p : Char → Prop) : Unmarked p Node.faults := by
  have span : ∀ tag : Tag, tag.isInline = true → ∀ content,
      (Node.span tag content).faults = sumOf Node.faults content := fun tag isInline content => by
    rw [Node.faults, if_pos isInline, faultsOf_eq, Nat.zero_add]
  exact ⟨span _ rfl, span _ rfl, span _ rfl, fun _ _ _ => rfl⟩

theorem plain_of_whole {pieces : List Piece} (whole : ∀ piece ∈ pieces, piece.Whole m definitions) :
    ∀ piece ∈ pieces, piece.Plain (isTokenChar · = false) := fun piece member => (whole piece member).plain

/-- What no piece counts is counted nowhere after the delimiters are paired up. -/
theorem sum_pairDelimiters_eq_zero {p : Char → Prop} {f : Node → Nat} (unmarked : Unmarked p f) {pieces : List Piece}
    (plain : ∀ piece ∈ pieces, piece.Plain p) (none : ∀ node, .node node ∈ pieces → f node = 0) :
    sumOf f (pairDelimiters pieces) = 0 := by
  rw [sum_pairDelimiters unmarked plain, List.sum_eq_zero_iff_forall_eq_nat]
  intro n member
  obtain ⟨piece, listed, rfl⟩ := List.mem_map.mp member
  cases piece with
  | delimiters => rfl
  | node node => exact none node listed

theorem faultsOf_pairDelimiters {pieces : List Piece} (whole : ∀ piece ∈ pieces, piece.Whole m definitions) :
    Node.faultsOf (pairDelimiters pieces) = 0 := by
  rw [faultsOf_eq]
  exact sum_pairDelimiters_eq_zero (unmarked_faults _) (plain_of_whole whole) fun node member =>
    (whole _ member).faultless

/-- What holds of the events of pieces, of emphasis and of delimiters holds of all events after the delimiters are
    paired up. -/
theorem events_pairDelimiters {p : Char → Prop} {holds : Event → Prop} {pieces : List Piece}
    (emphasis : ∀ tag, tag = .emphasis ∨ tag = .strong ∨ tag = .strikethrough → holds (.start tag) ∧ holds (.stop tag))
    (delimiters : ∀ (count : Nat) (mark : Char), p mark → holds (.text (.ofList (List.replicate count mark))))
    (plain : ∀ piece ∈ pieces, piece.Plain p)
    (pieceEvents : ∀ node, .node node ∈ pieces → ∀ event ∈ node.events, holds event) :
    ∀ event ∈ Node.eventsOf (pairDelimiters pieces), holds event := by
  classical
  -- An event counts if it breaks the rule.
  let broken (event : Event) : Nat := if holds event then 0 else 1
  have fine : ∀ {event : Event}, holds event → broken event = 0 := fun kept => if_pos kept
  have unmarked : Unmarked p fun node => (node.events.map broken).sum :=
    unmarked_of_events (fun tag kind => ⟨fine (emphasis tag kind).1, fine (emphasis tag kind).2⟩)
      fun count mark other => fine (delimiters count mark other)
  have none := sum_pairDelimiters_eq_zero unmarked plain fun node member => by
    refine List.sum_eq_zero_iff_forall_eq_nat.mpr fun n counted => ?_
    obtain ⟨event, inside, rfl⟩ := List.mem_map.mp counted
    exact fine (pieceEvents node member event inside)
  rw [← sum_eventsOf, List.sum_eq_zero_iff_forall_eq_nat] at none
  intro event member
  have zero := none (broken event) (List.mem_map_of_mem member)
  by_cases kept : holds event
  · exact kept
  · rw [show broken event = 1 from if_neg kept] at zero
    cases zero

/-- Pairing up delimiters keeps the tokens whole. -/
theorem proper_pairDelimiters {pieces : List Piece} (whole : ∀ piece ∈ pieces, piece.Whole m definitions) :
    ∀ event ∈ Node.eventsOf (pairDelimiters pieces), event.Proper m definitions := by
  apply @events_pairDelimiters (isTokenChar · = false) (Event.Proper m definitions)
  · intro tag kind
    rcases kind with rfl | rfl | rfl <;> exact ⟨⟨trivial, trivial⟩, ⟨trivial, trivial⟩⟩
  · intro count mark other
    refine ⟨?_, trivial⟩
    rw [Event.Whole, String.toList_ofList]
    exact Marking.tokened_of_not_mem (opening_not_mem_replicate other count)
  · exact plain_of_whole whole
  · intro node member
    exact (whole _ member).events

theorem load_pairDelimiters {pieces : List Piece} (whole : ∀ piece ∈ pieces, piece.Whole m definitions) :
    sumOf (Node.load m k) (pairDelimiters pieces) = loadOf m k pieces :=
  sum_pairDelimiters (unmarked_load m k) (plain_of_whole whole)

theorem whole_span {tag : Tag} {pieces : List Piece} (isInline : tag.isInline = true)
    (start : (Event.start tag).Whole m) (whole : ∀ piece ∈ pieces, piece.Whole m definitions) :
    (Piece.node (.span tag (pairDelimiters pieces))).Whole m definitions where
  faultless := by rw [Node.faults, if_pos isInline, faultsOf_pairDelimiters whole]
  events := by
    intro event member
    rw [Node.events] at member
    rcases List.mem_cons.mp member with rfl | member
    · exact ⟨start, trivial⟩
    · rcases List.mem_append.mp member with member | member
      · exact proper_pairDelimiters whole event member
      · rw [List.mem_singleton.mp member]
        exact ⟨trivial, trivial⟩

theorem load_span {tag : Tag} {pieces : List Piece} (start : (Event.start tag).load m k = 0)
    (whole : ∀ piece ∈ pieces, piece.Whole m definitions) :
    (Piece.node (.span tag (pairDelimiters pieces))).load m k = loadOf m k pieces := by
  have stop : (Event.stop tag).load m k = 0 := rfl
  have inner := load_pairDelimiters (k := k) whole
  rw [Piece.load, Piece.sum, Node.load, sum_span, start, stop]
  unfold Node.load at inner
  omega

/-! ## Open brackets -/

/-- How often the token with a number stands in the pieces since the innermost bracket and in front of all of
    them. -/
def held (m : Marking) (k : Nat) (brackets : List Bracket) (inside : List Piece) : Nat :=
  loadOf m k inside + (brackets.map fun bracket => loadOf m k bracket.outside).sum

/-- The pieces are paid for: their tokens are whole, and the text up to a place holds them all. -/
structure Paid (m : Marking) (definitions : Definitions) (cs : List Char) (brackets : List Bracket)
    (inside : List Piece) (place : Nat) : Prop where
  /-- The tokens are whole. -/
  whole : ∀ piece ∈ inside, piece.Whole m definitions
  /-- There are no more tokens than in the text. -/
  most : ∀ k, held m k brackets inside ≤ m.occurrences k (cs.take place)

/-- Everything is paid for, and what was in front of a bracket by the text up to that bracket. -/
def Account (m : Marking) (definitions : Definitions) (cs : List Char) : List Bracket → List Piece → Nat → Prop
  | [], inside, place => Paid m definitions cs [] inside place
  | bracket :: outer, inside, place => Paid m definitions cs (bracket :: outer) inside place ∧
      bracket.place ≤ place ∧ Account m definitions cs outer bracket.outside bracket.place

theorem Paid.later {place' : Nat} (paid : Paid m definitions cs brackets inside place) (later : place ≤ place') :
    Paid m definitions cs brackets inside place' :=
  ⟨paid.whole, fun k => Nat.le_trans (paid.most k) (occurrences_take_le later cs)⟩

/-- One more piece, paid for by the text behind the place. -/
theorem Paid.cons {piece : Piece} {place' : Nat} (paid : Paid m definitions cs brackets inside place)
    (whole : piece.Whole m definitions) (later : place ≤ place')
    (cost : ∀ k, piece.load m k ≤ m.occurrences k ((cs.drop place).take (place' - place))) :
    Paid m definitions cs brackets (piece :: inside) place' where
  whole := List.forall_mem_cons.mpr ⟨whole, paid.whole⟩
  most k := by
    have before := paid.most k
    have price := cost k
    have room := occurrences_slice_le (m := m) (k := k) later cs
    simp only [held, loadOf_cons] at before ⊢
    omega

/-- One more piece without tokens. -/
theorem Paid.consFree {piece : Piece} (paid : Paid m definitions cs brackets inside place) (whole : piece.Whole m definitions)
    (free : ∀ k, piece.load m k = 0) : Paid m definitions cs brackets (piece :: inside) place :=
  paid.cons whole (Nat.le_refl _) fun k => by rw [free]; exact Nat.zero_le _

/-- Text without sentinels. -/
theorem Paid.consPlain {text : List Char} (paid : Paid m definitions cs brackets inside place)
    (fresh : m.opening ∉ text) : Paid m definitions cs brackets (.node (.text text) :: inside) place :=
  paid.consFree (whole_text (Marking.tokened_of_not_mem fresh)) fun _ => load_text_of_not_mem fresh

namespace Account

theorem paid (account : Account m definitions cs brackets inside place) : Paid m definitions cs brackets inside place := by
  cases brackets with
  | nil => exact account
  | cons => exact account.1

/-- Other pieces behind the brackets. -/
theorem withPaid {inside' : List Piece} {place' : Nat} (account : Account m definitions cs brackets inside place)
    (paid : Paid m definitions cs brackets inside' place') (later : place ≤ place') :
    Account m definitions cs brackets inside' place' := by
  cases brackets with
  | nil => exact paid
  | cons => exact ⟨paid, Nat.le_trans account.2.1 later, account.2.2⟩

theorem later {place' : Nat} (account : Account m definitions cs brackets inside place) (later : place ≤ place') :
    Account m definitions cs brackets inside place' :=
  account.withPaid (account.paid.later later) later

/-- A bracket opens. -/
theorem push (bracket : Bracket) {stop : Nat} (account : Account m definitions cs brackets bracket.outside place)
    (behind : place ≤ bracket.place) (ends : bracket.place ≤ stop) :
    Account m definitions cs (bracket :: brackets) [] stop := by
  refine ⟨⟨fun _ absent => absurd absent List.not_mem_nil, fun k => ?_⟩, ends, account.later behind⟩
  refine Nat.le_trans ?_ ((account.paid.later (Nat.le_trans behind ends)).most k)
  simp [held, loadOf]

theorem opening_not_mem_mark (bracket : Bracket) : m.opening ∉ if bracket.isImage then ['!', '['] else ['['] := by
  split
  · exact opening_not_mem_of_plain (by decide)
  · exact opening_not_mem_of_plain (by decide)

/-- The innermost bracket turns out to be text. -/
theorem pop {bracket : Bracket} (account : Account m definitions cs (bracket :: brackets) inside place) :
    Account m definitions cs brackets (bracket.join inside) place := by
  obtain ⟨paid, earlier, outer⟩ := account
  refine outer.withPaid ⟨fun piece member => ?_, fun k => ?_⟩ earlier
  · rcases List.mem_append.mp member with member | member
    · exact paid.whole piece member
    · have mark : bracket.asText.Whole m definitions :=
        whole_text (Marking.tokened_of_not_mem (opening_not_mem_mark bracket))
      exact List.forall_mem_cons.mpr ⟨mark, outer.paid.whole⟩ piece member
  · have most := paid.most k
    have mark : bracket.asText.load m k = 0 := load_text_of_not_mem (opening_not_mem_mark bracket)
    simp only [held, Bracket.join, loadOf_append, loadOf_cons, List.map_cons, List.sum_cons] at most ⊢
    omega

/-- All brackets turn out to be text. -/
theorem join (account : Account m definitions cs brackets inside place) :
    Paid m definitions cs [] (joinBrackets brackets inside) place := by
  induction brackets generalizing inside with
  | nil => exact account
  | cons bracket outer ih => exact ih account.pop

/-- What follows the innermost bracket becomes a link or an image. -/
theorem link {bracket : Bracket} {tag : Tag} (account : Account m definitions cs (bracket :: brackets) inside place)
    (isInline : tag.isInline = true) (start : (Event.start tag).Whole m)
    (free : ∀ k, (Event.start tag).load m k = 0) :
    Account m definitions cs brackets (.node (.span tag (pairDelimiters inside.reverse)) :: bracket.outside) place := by
  obtain ⟨paid, earlier, outer⟩ := account
  have inner : ∀ piece ∈ inside.reverse, piece.Whole m definitions := fun piece member =>
    paid.whole piece (List.mem_reverse.mp member)
  refine outer.withPaid ⟨List.forall_mem_cons.mpr ⟨whole_span isInline start inner, outer.paid.whole⟩, fun k => ?_⟩
    earlier
  have most := paid.most k
  have reversed : loadOf m k inside.reverse = loadOf m k inside := by simp [loadOf]
  simp only [held, loadOf_cons, load_span (free k) inner, reversed, List.map_cons, List.sum_cons] at most ⊢
  omega

/-- What follows the innermost bracket becomes a reference to a footnote, which keeps only its label. -/
theorem footnote {bracket : Bracket} {label : List Char} (account : Account m definitions cs (bracket :: brackets) inside place)
    (whole : m.Tokened label) (known : definitions.hasFootnote label = true)
    (most : ∀ k, m.occurrences k label ≤
      m.occurrences k ((cs.drop bracket.place).take (place - bracket.place))) :
    Account m definitions cs [] (.node (.leaf (.footnoteReference (.ofList label))) ::
      joinBrackets brackets ((if bracket.isImage then [.node (.text ['!'])] else []) ++ bracket.outside))
      place := by
  obtain ⟨-, earlier, outer⟩ := account
  have marked : Paid m definitions cs brackets
      ((if bracket.isImage then [.node (.text ['!'])] else []) ++ bracket.outside) bracket.place := by
    split
    · exact outer.paid.consPlain (opening_not_mem_of_plain (by decide))
    · exact outer.paid
  have reference : (Piece.node (.leaf (.footnoteReference (.ofList label)))).Whole m definitions :=
    whole_leaf rfl ⟨by rw [Event.Whole, String.toList_ofList]; exact whole, by
      rw [Event.Refers, String.toList_ofList]; exact known⟩
  refine (outer.withPaid marked (Nat.le_refl _)).join.cons reference earlier fun k => ?_
  rw [load_leaf, Event.load, String.toList_ofList]
  exact most k

/-- Whether a link may begin at a bracket does not matter. -/
theorem mapBrackets {f : Bracket → Bracket}
    (same : ∀ bracket, (f bracket).place = bracket.place ∧ (f bracket).outside = bracket.outside)
    (account : Account m definitions cs brackets inside place) : Account m definitions cs (brackets.map f) inside place := by
  have held : ∀ k inside, held m k (brackets.map f) inside = held m k brackets inside := fun k inside => by
    simp [Markdown.held, Function.comp_def, same]
  induction brackets generalizing inside place with
  | nil => exact account
  | cons bracket outer ih =>
    obtain ⟨paid, earlier, rest⟩ := account
    refine ⟨⟨paid.whole, fun k => (held k inside).symm ▸ paid.most k⟩, ?_, ?_⟩
    · rw [(same bracket).1]
      exact earlier
    · rw [(same bracket).1, (same bracket).2]
      exact ih rest fun k inside => by simp [Markdown.held, Function.comp_def, same]

end Account

/-! ## Tokens behind a place -/

theorem Token.Behind.dropTo {token : Token} {place place' : Nat} (behind : token.Behind m cs place)
    (inside : place' < token.stop) :
    Token.Behind m cs place' { token with start := max token.start place' } where
  stop := Nat.le_of_lt inside
  start _ := Nat.le_max_right _ _
  some := Nat.max_lt.mpr ⟨behind.some, inside⟩
  sits := by
    have sits := behind.sits
    unfold Token.Sits at sits ⊢
    simp only
    cases kind : token.kind with
    | graves length escaped =>
      rw [kind] at sits
      exact fun at' low high => sits at' (Nat.le_trans (Nat.le_max_left _ _) low) high
    | _ =>
      rw [kind] at sits
      exact sits

theorem Ascending.dropTokens {tokens : List Token} {place place' : Nat}
    (ascending : Ascending m cs place tokens) : Ascending m cs place' (dropTokens place' tokens) := by
  induction tokens generalizing place with
  | nil => exact trivial
  | cons token rest ih =>
    unfold Markdown.dropTokens
    split
    next => exact ih ascending.2
    next later => exact ⟨ascending.1.dropTo (by omega), ascending.2⟩

/-- The closing run stands behind the place, and text can be cut in front of it. -/
theorem closingGraves?_spec {length : Nat} {tokens rest : List Token} {token : Token}
    (ascending : Ascending m cs place tokens) (found : closingGraves? length tokens = some (token, rest)) :
    place ≤ token.stop ∧ Clear (cs.drop token.start) ∧ Ascending m cs token.stop rest := by
  induction tokens generalizing place with
  | nil => cases found
  | cons first others ih =>
    obtain ⟨behind, after⟩ := ascending
    have further : closingGraves? length others = some (token, rest) →
        place ≤ token.stop ∧ Clear (cs.drop token.start) ∧ Ascending m cs token.stop rest := fun found => by
      obtain ⟨later, clear, rest⟩ := ih after found
      exact ⟨Nat.le_trans behind.stop later, clear, rest⟩
    unfold closingGraves? at found
    split at found
    next run escaped kind =>
      split at found
      next =>
        obtain ⟨rfl, rfl⟩ := Prod.mk.inj (Option.some.inj found)
        have sits := behind.sits
        unfold Token.Sits at sits
        rw [kind] at sits
        exact ⟨behind.stop, sits _ (Nat.le_refl _) behind.some, after⟩
      next => exact further found
    next => exact further found

/-! ## Markup and links -/

theorem Passage.placeOf_eq {start : Nat} (used : List Char) {rest : List Char}
    (split : passage.textFrom start = used ++ rest) (some : used ≠ []) :
    passage.placeOf rest = start + used.length := by
  rw [Passage.textFrom_eq] at split
  have size := congrArg List.length split
  have longer := List.length_pos_iff.mpr some
  rw [List.length_drop, List.length_append, Array.length_toList] at size
  rw [Passage.placeOf]
  omega

/-- The text from an opening bracket to a closing one has whole tokens. -/
theorem angled_slice (fit : passage.Fit m) {used rest : List Char}
    (split : passage.textFrom (place + 1) = used ++ '>' :: rest) :
    place ≤ passage.placeOf rest ∧ m.Tokened (passage.slice place (passage.placeOf rest)) ∧
      ∃ c, passage.slice place (passage.placeOf rest) = c :: (used ++ ['>']) := by
  have stop : passage.placeOf rest = place + 1 + (used.length + 1) := by
    rw [Passage.placeOf_eq (used ++ ['>']) (by simpa using split) (by simp), List.length_append,
      List.length_singleton]
  rw [Passage.textFrom_eq] at split
  cases here : passage.chars.toList.drop place with
  | nil =>
    rw [← List.drop_drop, here] at split
    simp at split
  | cons c more =>
    rw [← List.drop_drop, here, List.drop_one, List.tail_cons] at split
    subst split
    have slice : passage.slice place (passage.placeOf rest) = c :: (used ++ ['>']) := by
      have split : c :: (used ++ '>' :: rest) = (c :: (used ++ ['>'])) ++ rest := by simp
      rw [Passage.slice_eq, here, stop, split]
      refine List.take_left' ?_
      simp only [List.length_cons, List.length_append, List.length_nil]
      omega
    refine ⟨by omega, ?_, c, slice⟩
    have whole := (fit.genuine.suffix (List.drop_suffix place _)).tokened
    rw [here, ← List.cons_append] at whole
    rw [slice]
    exact whole.left_of_last (by decide)

/-- Markup and addresses have whole tokens, and no more than the text in the brackets. -/
theorem angleNode?_spec (fit : passage.Fit m) {piece : Node} {stop : Nat}
    (read : angleNode? passage place = some (piece, stop)) :
    (Piece.node piece).Whole m definitions ∧ place ≤ stop ∧
      ∀ k, (Piece.node piece).load m k ≤ m.occurrences k (passage.slice place stop) := by
  unfold angleNode? at read
  simp only at read
  split at read
  next address mailbox rest found =>
    obtain ⟨rfl, rfl⟩ := Prod.mk.inj (Option.some.inj read)
    obtain ⟨later, whole, c, slice⟩ := angled_slice fit (RawHtml.autolink?_spec found)
    rw [slice] at whole ⊢
    have tokened : m.Tokened address := whole.2.left (clear_cons (by decide))
    refine ⟨⟨rfl, fun event member => ?_⟩, later, fun k => ?_⟩
    · simp only [Node.events, Node.eventsOf, Node.text, List.cons_append, List.nil_append, List.mem_cons,
        List.not_mem_nil, or_false] at member
      rcases member with rfl | rfl | rfl
      · exact ⟨⟨by rw [String.toList_ofList]; exact tokened, trivial⟩, trivial⟩
      · exact ⟨by rw [Event.Whole, String.toList_ofList]; exact tokened, trivial⟩
      · exact ⟨trivial, trivial⟩
    · refine Nat.le_trans (Nat.le_of_eq ?_)
        (Nat.le_trans (m.occurrences_left_le address ['>']) (m.occurrences_right_le [c] _))
      simp [Piece.load, Piece.sum, Node.load, Node.events, Node.eventsOf, Node.text, Event.load]
  next =>
    -- Markup is taken with what containers put in front of its lines, or without.
    have markup : ∀ {out : List Char}, m.Derived out (passage.slice place stop) →
        m.Tokened (passage.slice place stop) → place ≤ stop →
        (Piece.node (.leaf (.inlineHtml (.ofList out)))).Whole m definitions ∧ place ≤ stop ∧
          ∀ k, (Piece.node (.leaf (.inlineHtml (.ofList out)))).load m k ≤
            m.occurrences k (passage.slice place stop) := fun derived whole later => by
      refine ⟨whole_leaf rfl ⟨?_, trivial⟩, later, fun k => ?_⟩
      · rw [Event.Whole, String.toList_ofList]
        exact derived.tokened whole
      · rw [load_leaf, Event.load, String.toList_ofList]
        exact derived.occurrences_le whole
    split at read
    next rest found =>
      obtain ⟨rfl, rfl⟩ := Prod.mk.inj (Option.some.inj read)
      obtain ⟨used, split⟩ := RawHtml.special?_spec found
      obtain ⟨later, whole, -⟩ := angled_slice fit split
      exact markup (derived_sliceWithSkipped fit _ _) whole later
    next =>
      obtain ⟨rest, found, same⟩ := Option.map_eq_some_iff.mp read
      obtain ⟨rfl, rfl⟩ := Prod.mk.inj same
      obtain ⟨used, split⟩ := RawHtml.tag?_spec found
      obtain ⟨later, whole, -⟩ := angled_slice fit split
      exact markup (.keepAll _) whole later

/-- What a closing bracket makes: a link ends behind it, and the label is that of a footnote and has no more
    tokens than the text in the brackets. -/
def Closing.Sound (m : Marking) (definitions : Definitions) (passage : Passage) (opening stop : Nat) :
    Closing → Prop
  | .target link stop' => link.Whole m ∧ stop ≤ stop'
  | .footnote label => m.Tokened label ∧ definitions.hasFootnote label = true ∧ ∀ k, m.occurrences k label ≤ m.occurrences k (passage.slice opening stop)
  | .none => True

theorem closing_spec (fit : passage.Fit m) (targets : ∀ link ∈ definitions.links, link.2.Whole m)
    {opening stop : Nat} (ended : ∃ front, passage.chars.toList.take stop = front ++ [']']) :
    (closing passage definitions opening stop).Sound m definitions passage opening stop := by
  have after : Genuine m (passage.textFrom stop) := by
    rw [Passage.textFrom_eq]
    exact fit.genuine.suffix (List.drop_suffix _ _)
  have slice : m.Tokened (passage.slice opening stop) := by
    obtain ⟨front, taken⟩ := ended
    have whole := fit.genuine.tokened
    rw [← List.take_append_drop stop passage.chars.toList, taken, List.append_assoc] at whole
    have left := whole.left_of_last (by decide)
    rw [← taken, ← List.take_append_drop opening (List.take stop passage.chars.toList)] at left
    rw [Passage.slice_eq, ← List.drop_take]
    exact left.right
  have further : ∀ {used rest : List Char} (last : Char), passage.textFrom stop = used ++ last :: rest →
      stop ≤ passage.placeOf rest := fun {used rest} last split => by
    rw [List.append_cons] at split
    rw [Passage.placeOf_eq _ split (by simp)]
    exact Nat.le_add_right _ _
  have linked (label : List Char) {target : LinkTarget} {stop' : Nat} (later : stop ≤ stop')
      (found : definitions.link? label = some target) :
      Closing.Sound m definitions passage opening stop (.target target stop') := by
    obtain ⟨earlier, others, listed, -⟩ := List.lookup_eq_some_iff.mp found
    exact ⟨targets (Text.fold label, target) (by rw [listed]; simp), later⟩
  unfold closing
  simp only
  split
  next target rest found =>
    obtain ⟨whole, used, split⟩ := inlineTarget?_spec after found
    exact ⟨whole, further _ split⟩
  split
  next label rest found =>
    obtain ⟨-, -, used, split⟩ := referenceLabel?_spec after.tokened found
    split
    next target known => exact linked label (further _ split) known
    next => trivial
  split
  next label found =>
    split
    next target known =>
      refine linked label ?_ known
      split <;> omega
    next => trivial
  next label found =>
    obtain ⟨whole, most, -⟩ := referenceLabel?_spec slice found
    split
    next known => exact ⟨whole, known, most⟩
    next => trivial
  next => trivial

/-! ## The pieces of a block -/

/-- The pieces of some tokens are paid for by the text. -/
theorem resolve_spec (fit : passage.Fit m) (targets : ∀ link ∈ definitions.links, link.2.Whole m)
    {tokens : List Token} (account : Account m definitions passage.chars.toList brackets inside place)
    (ascending : Ascending m passage.chars.toList place tokens) :
    ∃ stop, Paid m definitions passage.chars.toList [] (resolve passage definitions brackets inside tokens) stop := by
  generalize size : tokens.length = n
  induction n using Nat.strongRecOn generalizing brackets inside tokens place with
  | ind n ih =>
    cases tokens with
    | nil =>
      rw [resolve]
      exact ⟨place, account.join⟩
    | cons token rest =>
      obtain ⟨behind, after⟩ := ascending
      have shorter : ∀ {others : List Token}, others.length ≤ rest.length → others.length < n :=
        fun short => by rw [← size, List.length_cons]; omega
      have later := account.later behind.stop
      -- A piece in the place of the token.
      have next : ∀ {piece : Piece}, Paid m definitions passage.chars.toList brackets (piece :: inside) token.stop →
          ∃ stop, Paid m definitions passage.chars.toList []
            (resolve passage definitions brackets (piece :: inside) rest) stop := fun paid =>
        ih _ (shorter (Nat.le_refl _)) (later.withPaid paid (Nat.le_refl _)) after rfl
      have plain : ∀ {text : List Char}, m.opening ∉ text →
          ∃ stop, Paid m definitions passage.chars.toList []
            (resolve passage definitions brackets (.node (.text text) :: inside) rest) stop := fun fresh =>
        next (later.paid.consPlain fresh)
      have sits := behind.sits
      unfold Token.Sits at sits
      unfold resolve
      simp only
      split
      next kind =>
        rw [kind] at sits
        have whole : m.Tokened (passage.slice token.start token.stop) := by
          rw [Passage.slice_eq]
          exact tokened_slice fit.genuine.tokened sits
        have start := behind.start (by rw [kind]; rfl)
        refine next ((account.paid.later start).cons (whole_text whole) (Nat.le_of_lt behind.some) fun k => ?_)
        exact Nat.le_of_eq (by rw [load_text, Passage.slice_eq])
      next chars kind =>
        rw [kind] at sits
        exact plain sits
      next => exact next (later.paid.consFree (whole_leaf rfl ⟨trivial, trivial⟩) fun k => load_leaf _)
      next => exact next (later.paid.consFree (whole_leaf rfl ⟨trivial, trivial⟩) fun k => load_leaf _)
      next mark length opens closes kind =>
        rw [kind] at sits
        exact next (later.paid.consFree sits fun k => rfl)
      next length escaped kind =>
        split
        next found others grave =>
          have closed : closingGraves? (if escaped then length - 1 else length) rest = some (found, others) := by
            generalize (if escaped then length - 1 else length) = sought at grave ⊢
            split at grave
            · cases grave
            · exact grave
          obtain ⟨stop, clear, ascending⟩ := closingGraves?_spec after closed
          have code : m.Tokened (codeText passage.inCell (passage.slice token.stop found.start)) := by
            rw [Passage.slice_eq]
            exact tokened_codeText _ (tokened_slice fit.genuine.tokened clear)
          have coded : (Piece.node (.leaf (.code (.ofList
              (codeText passage.inCell (passage.slice token.stop found.start)))))).Whole m definitions :=
            whole_leaf rfl ⟨by rw [Event.Whole, String.toList_ofList]; exact code, trivial⟩
          have front : Paid m definitions passage.chars.toList brackets
              ((if escaped then [.node (.text ['\x60'])] else []) ++ inside) found.stop := by
            split
            · exact (later.paid.later stop).consPlain (opening_not_mem_of_plain (by decide))
            · exact later.paid.later stop
          have fewer := length_of_closingGraves? closed
          exact ih _ (shorter (Nat.le_of_lt fewer))
            (later.withPaid (front.consFree coded fun k => load_leaf _) stop) ascending rfl
        next => exact plain (opening_not_mem_replicate (by decide) length)
      next kind =>
        split
        next piece stop found =>
          obtain ⟨whole, further, most⟩ := angleNode?_spec fit found
          have start := account.later (behind.start (by rw [kind]; rfl))
          refine ih _ (shorter (length_dropTokens_le stop rest))
            (start.withPaid (start.paid.cons whole further fun k => ?_) further) after.dropTokens rfl
          rw [← Passage.slice_eq]
          exact most k
        next => exact plain (opening_not_mem_of_plain (by decide))
      next isImage kind =>
        have start := behind.start (by rw [kind]; rfl)
        have some := behind.some
        exact ih _ (shorter (Nat.le_refl _))
          (Account.push ⟨isImage, true, token.stop - 1, inside⟩ account (by simp only; omega)
            (Nat.sub_le _ _)) after rfl
      next kind =>
        rw [kind] at sits
        split
        next => exact plain (opening_not_mem_of_plain (by decide))
        next bracket outer =>
          have sound : Closing.Sound m definitions passage bracket.place token.stop
              (if bracket.isActive then closing passage definitions bracket.place token.stop else .none) := by
            split
            · exact closing_spec fit targets sits
            · trivial
          split
          next link stop made =>
            rw [made] at sound
            obtain ⟨whole, further⟩ := sound
            generalize tagged : (if bracket.isImage then Tag.image link else Tag.link false link) = tag
            have start : tag.isInline = true ∧ (Event.start tag).Whole m ∧
                ∀ k, (Event.start tag).load m k = 0 := by
              rw [← tagged]
              split <;> exact ⟨rfl, whole, fun _ => rfl⟩
            have linked := (later.link start.1 start.2.1 start.2.2).later further
            refine ih _ (shorter (length_dropTokens_le stop rest)) ?_ after.dropTokens rfl
            split
            · exact linked
            · exact linked.mapBrackets fun bracket => by split <;> exact ⟨rfl, rfl⟩
          next label made =>
            rw [made] at sound
            obtain ⟨whole, known, most⟩ := sound
            refine ih _ (shorter (Nat.le_refl _)) (later.footnote whole known fun k => ?_) after rfl
            rw [← Passage.slice_eq]
            exact most k
          next =>
            exact ih _ (shorter (Nat.le_refl _))
              (later.pop.withPaid (later.pop.paid.consPlain (opening_not_mem_of_plain (by decide)))
                (Nat.le_refl _)) after rfl

/-- The pieces of a block have whole tokens, no more than its text. -/
theorem nodes_spec {content : Content} (fit : content.Fit m)
    (targets : ∀ link ∈ definitions.links, link.2.Whole m) :
    (∀ event ∈ contentEvents definitions content, event.Proper m definitions) ∧
      ∀ k, ((contentEvents definitions content).map (Event.load m k)).sum ≤ content.weight m k := by
  have account : Account m definitions (Passage.ofContent content).chars.toList [] [] 0 :=
    ⟨fun _ absent => absurd absent List.not_mem_nil, fun k => Nat.zero_le _⟩
  obtain ⟨stop, whole, most⟩ := resolve_spec (fit_ofContent fit) targets account (ascending_tokens fit)
  unfold contentEvents Content.nodes
  simp only
  generalize resolve (.ofContent content) definitions [] [] (tokens content) = pieces at whole most
  have inner : ∀ piece ∈ pieces.reverse, piece.Whole m definitions := fun piece member =>
    whole piece (List.mem_reverse.mp member)
  have total : ∀ k, ((Node.eventsOf (pairDelimiters pieces.reverse)).map (Event.load m k)).sum ≤
      content.weight m k := fun k => by
    have most := most k
    have reversed : loadOf m k pieces.reverse = loadOf m k pieces := by simp [loadOf]
    have room := occurrences_take_le (m := m) (k := k) (Nat.le_max_left stop
      (Passage.ofContent content).chars.toList.length) (Passage.ofContent content).chars.toList
    have load := load_pairDelimiters (k := k) inner
    rw [List.take_of_length_le (Nat.le_max_right _ _), occurrences_ofContent fit] at room
    rw [sum_eventsOf]
    unfold Node.load at load
    simp only [held, List.map_nil, List.sum_nil] at most
    omega
  split
  next checked _ =>
    refine ⟨List.forall_mem_cons.mpr ⟨⟨trivial, trivial⟩, proper_pairDelimiters inner⟩, fun k => ?_⟩
    have total := total k
    simp only [Node.eventsOf, Node.events, List.singleton_append, List.map_cons, List.sum_cons, Event.load]
    omega
  next => exact ⟨proper_pairDelimiters inner, total⟩

end Galley.Markdown
