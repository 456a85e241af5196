import Galley.Markdown.Emphasis
import Mathlib

/-!
# Pieces and emphasis

Pairing up delimiters moves pieces into emphasis and turns what is left of delimiters into text. Whatever is
counted in pieces, and not in emphasis and delimiters, stays the same.

* `sumOf`, `Piece.sum` — what is counted in pieces;
* `Unmarked` — emphasis and delimiters do not count;
* `sum_pairDelimiters` — pairing up delimiters changes nothing.
-/

namespace Galley.Markdown

variable {p : Char → Prop} {f : Node → Nat} {state : Pairing} {run : Delimiters}

/-- What is counted in some pieces of the line. -/
def sumOf (f : Node → Nat) (nodes : List Node) : Nat := (nodes.map f).sum

/-- What is counted in a piece; delimiters do not count. -/
def Piece.sum (f : Node → Nat) : Piece → Nat
  | .node piece => f piece
  | .delimiters _ => 0

/-- Delimiters are made of characters of some kind. -/
def Piece.Plain (p : Char → Prop) : Piece → Prop
  | .node _ => True
  | .delimiters run => p run.mark

/-- Neither emphasis nor text made of delimiters counts. -/
structure Unmarked (p : Char → Prop) (f : Node → Nat) : Prop where
  /-- Emphasis does not count. -/
  emphasis : ∀ content, f (.span .emphasis content) = sumOf f content
  /-- Strong emphasis does not count. -/
  strong : ∀ content, f (.span .strong content) = sumOf f content
  /-- Text that is struck out does not count as such. -/
  strikethrough : ∀ content, f (.span .strikethrough content) = sumOf f content
  /-- Delimiters do not count. -/
  delimiters : ∀ (count : Nat) (mark : Char), p mark → f (.text (List.replicate count mark)) = 0

@[simp]
theorem sumOf_nil : sumOf f [] = 0 := rfl

@[simp]
theorem sumOf_cons (node : Node) (rest : List Node) : sumOf f (node :: rest) = f node + sumOf f rest := by
  simp [sumOf]

@[simp]
theorem sumOf_append (front back : List Node) : sumOf f (front ++ back) = sumOf f front + sumOf f back := by
  simp [sumOf]

@[simp]
theorem sumOf_reverse (nodes : List Node) : sumOf f nodes.reverse = sumOf f nodes := by
  simp [sumOf]

namespace Pairing

/-- What is counted in the openers. -/
def sumOpeners (f : Node → Nat) (openers : List Opener) : Nat :=
  (openers.map fun opener => sumOf f opener.inside).sum

/-- What is counted in the state of the pairing. -/
def sum (f : Node → Nat) (state : Pairing) : Nat := sumOf f state.outside + sumOpeners f state.openers

/-- All openers are made of characters of some kind. -/
def Plain (p : Char → Prop) (state : Pairing) : Prop := ∀ opener ∈ state.openers, p opener.run.mark

theorem sum_push (node : Node) (state : Pairing) : (state.push node).sum f = f node + state.sum f := by
  unfold push
  split
  next none => simp [sum, sumOpeners, none]
  next opener rest some => simp [sum, sumOpeners, some]; omega

theorem plain_push (node : Node) (plain : state.Plain p) : (state.push node).Plain p := by
  unfold push
  split
  next => exact plain
  next opener rest some =>
    unfold Plain at plain
    rw [some] at plain
    obtain ⟨first, others⟩ := List.forall_mem_cons.mp plain
    exact List.forall_mem_cons.mpr ⟨first, others⟩

theorem foldl_push (nodes : List Node) (plain : state.Plain p) :
    (nodes.foldl push state).Plain p ∧ (nodes.foldl push state).sum f = sumOf f nodes + state.sum f := by
  induction nodes generalizing state with
  | nil => exact ⟨plain, by simp⟩
  | cons node rest ih =>
    obtain ⟨plain', total⟩ := ih (plain_push node plain)
    refine ⟨plain', ?_⟩
    rw [List.foldl_cons, total, sum_push, sumOf_cons]
    omega

theorem sum_wrap (unmarked : Unmarked p f) (mark : Char) (count : Nat) (content : List Node) :
    sumOf f (wrap mark count content) = sumOf f content := by
  fun_induction wrap mark count content with
  | case1 content => rfl
  | case2 content =>
    rw [sumOf_cons]
    split <;> simp [unmarked.emphasis, unmarked.strikethrough]
  | case3 count content ih =>
    rw [ih, sumOf_cons]
    split <;> simp [unmarked.strong, unmarked.strikethrough]

theorem findOpener?_spec {limit : Nat} {openers passed outer : List Opener} {opener : Opener}
    (found : findOpener? run limit openers = some (passed, opener, outer)) :
    openers = passed ++ opener :: outer := by
  induction limit generalizing openers passed with
  | zero => cases found
  | succ limit ih =>
    cases openers with
    | nil => cases found
    | cons first rest =>
      unfold findOpener? at found
      split at found
      · simp only [Option.some.injEq, Prod.mk.injEq] at found
        obtain ⟨rfl, rfl, rfl⟩ := found
        rfl
      · obtain ⟨⟨inner, found', outer'⟩, deeper, same⟩ := Option.map_eq_some_iff.mp found
        simp only [Prod.mk.injEq] at same
        obtain ⟨rfl, rfl, rfl⟩ := same
        rw [ih deeper, List.cons_append]

theorem sum_asText (unmarked : Unmarked p f) {opener : Opener} (plain : p opener.run.mark) :
    f opener.asText = 0 :=
  unmarked.delimiters _ _ plain

/-- Openers that turned out to be text count as before. -/
theorem sum_asTexts (unmarked : Unmarked p f) {openers : List Opener}
    (plain : ∀ opener ∈ openers, p opener.run.mark) :
    sumOf f (openers.flatMap fun opener => opener.inside ++ [opener.asText]) = sumOpeners f openers := by
  induction openers with
  | nil => rfl
  | cons opener rest ih =>
    obtain ⟨first, others⟩ := List.forall_mem_cons.mp plain
    rw [List.flatMap_cons, sumOf_append, ih others, sumOf_append, sumOf_cons, sum_asText unmarked first]
    simp [sumOpeners]

theorem raiseBound_same (state : Pairing) (run : Delimiters) :
    (state.raiseBound run).outside = state.outside ∧ (state.raiseBound run).openers = state.openers := by
  unfold raiseBound
  simp only
  split
  · exact ⟨rfl, rfl⟩
  split
  · exact ⟨rfl, rfl⟩
  split <;> exact ⟨rfl, rfl⟩

theorem close_spec (unmarked : Unmarked p f) (fuel count : Nat) (plain : state.Plain p) :
    (close run fuel count state).1.Plain p ∧ (close run fuel count state).1.sum f = state.sum f := by
  fun_induction close run fuel count state with
  | case1 => exact ⟨plain, rfl⟩
  | case2 => exact ⟨plain, rfl⟩
  | case3 fuel count state limit missing =>
    obtain ⟨outside, openers⟩ := raiseBound_same state run
    exact ⟨by unfold Plain; rw [openers]; exact plain, by unfold sum; rw [outside, openers]⟩
  | case4 fuel count state limit passed opener outer found inside used nodes lowered closed ih =>
    have openers := findOpener?_spec found
    unfold Plain at plain
    rw [openers] at plain
    obtain ⟨passedPlain, plain⟩ := List.forall_mem_append.mp plain
    obtain ⟨openerPlain, outerPlain⟩ := List.forall_mem_cons.mp plain
    have total : sumOf f nodes = sumOpeners f passed + sumOf f opener.inside := by
      rw [show nodes = wrap run.mark used inside.reverse from rfl, sum_wrap unmarked, sumOf_reverse,
        show inside = _ ++ opener.inside from rfl, sumOf_append, sum_asTexts unmarked passedPlain]
    have before : state.sum f = sumOf f state.outside + sumOf f nodes + sumOpeners f outer := by
      rw [total]
      simp [sum, openers, sumOpeners]
      omega
    have after : closed.Plain p ∧ closed.sum f = state.sum f := by
      rw [before]
      by_cases some : used < opener.count
      · rw [show closed = _ from if_pos some]
        refine ⟨List.forall_mem_cons.mpr ⟨openerPlain, outerPlain⟩, ?_⟩
        simp [sum, sumOpeners, lowered, lowerBounds]
        omega
      · rw [show closed = _ from if_neg some]
        have loweredPlain : lowered.Plain p := outerPlain
        obtain ⟨plain', total'⟩ := foldl_push (f := f) nodes loweredPlain
        refine ⟨plain', ?_⟩
        rw [total']
        simp [sum, lowered, lowerBounds]
        omega
    obtain ⟨plain', total'⟩ := ih after.1
    exact ⟨plain', total'.trans after.2⟩

theorem step_spec (unmarked : Unmarked p f) {piece : Piece} (plain : state.Plain p) (delimiters : piece.Plain p) :
    (state.step piece).Plain p ∧ (state.step piece).sum f = piece.sum f + state.sum f := by
  cases piece with
  | node piece => exact ⟨plain_push piece plain, sum_push piece state⟩
  | delimiters run =>
    have closed : ∀ pair : Pairing × Nat, pair.1.Plain p → pair.1.sum f = state.sum f →
        let next := if pair.2 == 0 then pair.1
          else if run.opens then { pair.1 with openers := ⟨run, pair.2, []⟩ :: pair.1.openers }
          else pair.1.push (.text (List.replicate pair.2 run.mark))
        next.Plain p ∧ next.sum f = state.sum f := by
      rintro ⟨after, count⟩ plain' total
      dsimp only at plain' total ⊢
      split
      · exact ⟨plain', total⟩
      split
      · refine ⟨List.forall_mem_cons.mpr ⟨delimiters, plain'⟩, ?_⟩
        simpa [sum, sumOpeners] using total
      · refine ⟨plain_push _ plain', ?_⟩
        rw [sum_push, unmarked.delimiters _ _ delimiters, total, Nat.zero_add]
    rw [Piece.sum, Nat.zero_add]
    unfold step
    dsimp only
    by_cases closes : run.closes
    · rw [if_pos closes]
      obtain ⟨plain', total⟩ := close_spec unmarked (run.length + 1) run.length plain
      exact closed _ plain' total
    · rw [if_neg closes]
      exact closed (state, run.length) plain rfl

theorem foldl_step_spec (unmarked : Unmarked p f) {pieces : List Piece} (plain : state.Plain p)
    (delimiters : ∀ piece ∈ pieces, piece.Plain p) :
    (pieces.foldl step state).Plain p ∧
      (pieces.foldl step state).sum f = (pieces.map (Piece.sum f)).sum + state.sum f := by
  induction pieces generalizing state with
  | nil => exact ⟨plain, by simp⟩
  | cons piece rest ih =>
    obtain ⟨first, others⟩ := List.forall_mem_cons.mp delimiters
    obtain ⟨plain', total⟩ := step_spec unmarked plain first
    obtain ⟨plain'', total'⟩ := ih plain' others
    refine ⟨plain'', ?_⟩
    rw [List.foldl_cons, total', total, List.map_cons, List.sum_cons]
    omega

theorem sum_finish (unmarked : Unmarked p f) (plain : state.Plain p) : sumOf f state.finish = state.sum f := by
  rw [finish, sumOf_reverse, sumOf_append, sum_asTexts unmarked plain, sum]
  omega

end Pairing

/-- What counts neither emphasis nor delimiters is the same after the delimiters are paired up. -/
theorem sum_pairDelimiters (unmarked : Unmarked p f) {pieces : List Piece}
    (delimiters : ∀ piece ∈ pieces, piece.Plain p) :
    sumOf f (pairDelimiters pieces) = (pieces.map (Piece.sum f)).sum := by
  have empty : Pairing.Plain p ⟨[], [], []⟩ := fun _ absent => nomatch absent
  obtain ⟨plain, total⟩ := Pairing.foldl_step_spec unmarked empty delimiters
  rw [pairDelimiters, Pairing.sum_finish unmarked plain, total]
  simp [Pairing.sum, Pairing.sumOpeners]

end Galley.Markdown
