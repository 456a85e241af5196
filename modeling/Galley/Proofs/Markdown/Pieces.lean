import Galley.Proofs.Markdown.Inlines

/-!
# Pieces of a line

Whatever tokens a text is cut into, its pieces stand in a line. A reference to a footnote stands in no image: where
one is read all brackets that are open become text, so none of them can begin an image around it.

* `Node.references`, `Node.captives` — the references in a piece, and those that stand in its images;
* `Clear` — pieces without captives, and without references where a bracket is open in front of them;
* `tame_resolve` — the pieces of some tokens;
* `imagesPlain` — in images stand only pieces of a line, and no references;
* `nests_contentEvents`, `imagesPlain_contentEvents` — the events of a block of text.
-/

namespace Galley.Markdown

variable {p : Char → Prop} {passage : Passage} {definitions : Definitions} {bracket : Bracket}
  {brackets : List Bracket} {inside pieces : List Piece}

/-! ## References in images -/

/-- Whether an event is a reference to a footnote. -/
def Event.isReference : Event → Bool
  | .footnoteReference _ => true
  | _ => false

theorem Event.eq_of_isReference {event : Event} (refers : event.isReference = true) :
    ∃ label, event = .footnoteReference label := by
  cases event with
  | footnoteReference label => exact ⟨label, rfl⟩
  | _ => cases refers

mutual

/-- How many references stand in a piece. -/
def Node.references : Node → Nat
  | .leaf event => if event.isReference then 1 else 0
  | .span _ content => Node.referencesOf content

/-- The same of some pieces. -/
def Node.referencesOf : List Node → Nat
  | [] => 0
  | node :: rest => node.references + Node.referencesOf rest

end

mutual

/-- How many references stand in the images of a piece. -/
def Node.captives : Node → Nat
  | .leaf _ => 0
  | .span tag content => if tag.isImage then Node.referencesOf content else Node.captivesOf content

/-- The same of some pieces. -/
def Node.captivesOf : List Node → Nat
  | [] => 0
  | node :: rest => node.captives + Node.captivesOf rest

end

theorem referencesOf_eq (nodes : List Node) : Node.referencesOf nodes = sumOf Node.references nodes := by
  induction nodes with
  | nil => rfl
  | cons node rest ih => rw [Node.referencesOf, ih, sumOf_cons]

theorem captivesOf_eq (nodes : List Node) : Node.captivesOf nodes = sumOf Node.captives nodes := by
  induction nodes with
  | nil => rfl
  | cons node rest ih => rw [Node.captivesOf, ih, sumOf_cons]

theorem unmarked_references (p : Char → Prop) : Unmarked p Node.references :=
  ⟨referencesOf_eq, referencesOf_eq, referencesOf_eq, fun _ _ _ => rfl⟩

theorem unmarked_captives (p : Char → Prop) : Unmarked p Node.captives :=
  ⟨captivesOf_eq, captivesOf_eq, captivesOf_eq, fun _ _ _ => rfl⟩

/-- A piece that stands in a line, and in whose images no reference does. -/
structure Node.Tame (node : Node) : Prop where
  faultless : node.faults = 0
  noCaptives : node.captives = 0

/-- The same of a piece or a run of delimiters. -/
def Piece.Tame : Piece → Prop
  | .node piece => piece.Tame
  | .delimiters _ => True

/-- A piece or a run of delimiters without references. -/
def Piece.Free : Piece → Prop
  | .node piece => piece.references = 0
  | .delimiters _ => True

theorem sum_pairDelimiters_of_node {f : Node → Nat} (unmarked : Unmarked (fun _ => True) f)
    (none : ∀ node, .node node ∈ pieces → f node = 0) : sumOf f (pairDelimiters pieces) = 0 :=
  sum_pairDelimiters_eq_zero unmarked (fun piece _ => by cases piece <;> trivial) none

theorem faultsOf_of_tame (tame : ∀ piece ∈ pieces, piece.Tame) : Node.faultsOf (pairDelimiters pieces) = 0 := by
  rw [faultsOf_eq]
  exact sum_pairDelimiters_of_node (unmarked_faults _) fun node member => (tame _ member).faultless

theorem captivesOf_of_tame (tame : ∀ piece ∈ pieces, piece.Tame) :
    Node.captivesOf (pairDelimiters pieces) = 0 := by
  rw [captivesOf_eq]
  exact sum_pairDelimiters_of_node (unmarked_captives _) fun node member => (tame _ member).noCaptives

theorem referencesOf_of_free (free : ∀ piece ∈ pieces, piece.Free) :
    Node.referencesOf (pairDelimiters pieces) = 0 := by
  rw [referencesOf_eq]
  exact sum_pairDelimiters_of_node (unmarked_references _) fun node member => free _ member

theorem tame_leaf {event : Event} (isLeaf : event.isLeaf = true) : (Piece.node (.leaf event)).Tame :=
  ⟨if_pos isLeaf, rfl⟩

/-- A link or an image with free pieces in it. -/
theorem tame_span {tag : Tag} (isInline : tag.isInline = true)
    (all : ∀ piece ∈ pieces, piece.Tame ∧ piece.Free) :
    (Piece.node (.span tag (pairDelimiters pieces))).Tame ∧ (Piece.node (.span tag (pairDelimiters pieces))).Free := by
  have tame : ∀ piece ∈ pieces, piece.Tame := fun piece member => (all piece member).1
  have free := referencesOf_of_free fun piece member => (all piece member).2
  refine ⟨⟨?_, ?_⟩, free⟩
  · rw [Node.faults, if_pos isInline, faultsOf_of_tame tame]
  · rw [Node.captives, free, captivesOf_of_tame tame, ite_self]

theorem tame_angleNode? {place stop : Nat} {node : Node} (read : angleNode? passage place = some (node, stop)) :
    (Piece.node node).Tame ∧ (Piece.node node).Free := by
  unfold angleNode? at read
  simp only at read
  split at read
  next address mailbox rest _ =>
    obtain ⟨rfl, -⟩ := Prod.mk.inj (Option.some.inj read)
    exact ⟨⟨rfl, rfl⟩, rfl⟩
  next =>
    split at read
    · obtain ⟨rfl, -⟩ := Prod.mk.inj (Option.some.inj read)
      exact ⟨tame_leaf rfl, rfl⟩
    · obtain ⟨rest, -, same⟩ := Option.map_eq_some_iff.mp read
      obtain ⟨rfl, -⟩ := Prod.mk.inj same
      exact ⟨tame_leaf rfl, rfl⟩

/-! ## Brackets -/

/-- Pieces without captives, and without references where a bracket is open in front of them. -/
def Clear : List Bracket → List Piece → Prop
  | [], inside => ∀ piece ∈ inside, piece.Tame
  | bracket :: outer, inside => (∀ piece ∈ inside, piece.Tame ∧ piece.Free) ∧ Clear outer bracket.outside

namespace Clear

theorem tame (clear : Clear brackets inside) : ∀ piece ∈ inside, piece.Tame := by
  cases brackets with
  | nil => exact clear
  | cons bracket outer => exact fun piece member => (clear.1 piece member).1

theorem cons {piece : Piece} (clear : Clear brackets inside) (own : piece.Tame ∧ piece.Free) :
    Clear brackets (piece :: inside) := by
  cases brackets with
  | nil => exact List.forall_mem_cons.mpr ⟨own.1, clear⟩
  | cons bracket outer => exact ⟨List.forall_mem_cons.mpr ⟨own, clear.1⟩, clear.2⟩

theorem leaf {event : Event} (clear : Clear brackets inside) (isLeaf : event.isLeaf = true)
    (other : event.isReference = false) : Clear brackets (.node (.leaf event) :: inside) :=
  clear.cons ⟨tame_leaf isLeaf, if_neg (by rw [other]; decide)⟩

/-- Which brackets may begin links does not matter. -/
theorem map {change : Bracket → Bracket} (clear : Clear brackets inside)
    (same : ∀ bracket, (change bracket).outside = bracket.outside) : Clear (brackets.map change) inside := by
  induction brackets generalizing inside with
  | nil => exact clear
  | cons bracket outer ih => exact ⟨clear.1, by rw [same]; exact ih clear.2⟩

/-- A bracket that turned out to be text. -/
theorem join (clear : Clear (bracket :: brackets) inside) : Clear brackets (bracket.join inside) := by
  unfold Bracket.join
  obtain ⟨within, before⟩ := clear
  cases brackets with
  | nil =>
    refine List.forall_mem_append.mpr ⟨fun piece member => (within piece member).1, ?_⟩
    exact List.forall_mem_cons.mpr ⟨tame_leaf rfl, before⟩
  | cons outer rest =>
    refine ⟨List.forall_mem_append.mpr ⟨within, ?_⟩, before.2⟩
    exact List.forall_mem_cons.mpr ⟨⟨tame_leaf rfl, rfl⟩, before.1⟩

theorem joinBrackets (clear : Clear brackets inside) : ∀ piece ∈ joinBrackets brackets inside, piece.Tame := by
  induction brackets generalizing inside with
  | nil => exact clear
  | cons bracket outer ih => exact ih clear.join

end Clear

/-- The pieces of some tokens stand in a line, and no reference among them in an image. -/
theorem tame_resolve (tokens : List Token) (clear : Clear brackets inside) :
    ∀ piece ∈ resolve passage definitions brackets inside tokens, piece.Tame := by
  induction h : tokens.length using Nat.strongRecOn generalizing brackets inside tokens with
  | ind length ih =>
    cases tokens with
    | nil =>
      unfold resolve
      exact clear.joinBrackets
    | cons token rest =>
      have shorter : ∀ {later : List Token}, later.length ≤ rest.length → later.length < length := by
        intro later le
        rw [← h]
        exact Nat.lt_succ_of_le le
      -- Most tokens become one more piece behind the brackets that are open.
      have go : ∀ piece : Piece, piece.Tame ∧ piece.Free →
          ∀ other ∈ resolve passage definitions brackets (piece :: inside) rest, other.Tame := by
        intro piece own
        exact ih _ (shorter (Nat.le_refl _)) rest (clear.cons own) rfl
      unfold resolve
      simp only
      split
      next => exact go _ ⟨tame_leaf rfl, rfl⟩
      next => exact go _ ⟨tame_leaf rfl, rfl⟩
      next => exact go _ ⟨tame_leaf rfl, rfl⟩
      next => exact go _ ⟨tame_leaf rfl, rfl⟩
      next => exact go _ ⟨trivial, trivial⟩
      next count escaped _ =>
        split
        next found after closed =>
          have fewer : after.length < rest.length := by
            generalize (if escaped then count - 1 else count) = sought at closed
            split at closed
            · cases closed
            · exact length_of_closingGraves? closed
          refine ih _ (shorter (Nat.le_of_lt fewer)) after (Clear.leaf ?_ rfl rfl) rfl
          split
          · exact clear.leaf rfl rfl
          · exact clear
        next => exact go _ ⟨tame_leaf rfl, rfl⟩
      next =>
        split
        next node stop read =>
          exact ih _ (shorter (length_dropTokens_le _ _)) _ (clear.cons (tame_angleNode? read)) rfl
        next => exact go _ ⟨tame_leaf rfl, rfl⟩
      next =>
        exact ih _ (shorter (Nat.le_refl _)) rest ⟨fun _ absent => absurd absent List.not_mem_nil, clear⟩ rfl
      next =>
        split
        next => exact go _ ⟨tame_leaf rfl, rfl⟩
        next bracket outer =>
          split
          next target stop _ =>
            have span := @tame_span _ (if bracket.isImage then .image target else .link false target)
              (by split <;> rfl) fun piece member => clear.1 piece (List.mem_reverse.mp member)
            refine ih _ (shorter (length_dropTokens_le _ _)) _ (Clear.cons ?_ span) rfl
            split
            · exact clear.2
            · exact clear.2.map fun other => by split <;> rfl
          next label _ =>
            -- From here on no bracket is open.
            refine ih _ (shorter (Nat.le_refl _)) rest (List.forall_mem_cons.mpr ⟨tame_leaf rfl, ?_⟩) rfl
            refine Clear.joinBrackets ?_
            split
            · exact clear.2.leaf rfl rfl
            · exact clear.2
          next =>
            exact ih _ (shorter (Nat.le_refl _)) rest (clear.join.leaf rfl rfl) rfl

/-! ## Events -/

/-- How many images a tag opens. -/
def Tag.imageCount (tag : Tag) : Nat := if tag.isImage then 1 else 0

theorem Tag.imageCount_eq_zero {tag : Tag} : tag.imageCount = 0 ↔ tag.isImage = false := by
  unfold Tag.imageCount
  cases tag.isImage <;> simp

/-- Whether in images stand only pieces of a line, and no references. `images` tells how many images are open. -/
def imagesPlain : (images : Nat) → List Event → Bool
  | _, [] => true
  | images, .start tag :: rest => (images == 0 || tag.isInline) && imagesPlain (images + tag.imageCount) rest
  | images, .stop tag :: rest => imagesPlain (images - tag.imageCount) rest
  | images, event :: rest =>
    (images == 0 || (event.isLeaf && !event.isReference)) && imagesPlain images rest

theorem imagesPlain_leaf {images : Nat} {event : Event} {rest : List Event} (isLeaf : event.isLeaf = true)
    (fits : images = 0 ∨ event.isReference = false) :
    imagesPlain images (event :: rest) = imagesPlain images rest := by
  have passes : (images == 0 || (event.isLeaf && !event.isReference)) = true := by
    rcases fits with rfl | other
    · rfl
    · rw [isLeaf, other]
      simp
  cases event with
  | start tag => cases isLeaf
  | stop tag => cases isLeaf
  | _ => exact (congrArg (· && imagesPlain images rest) passes).trans (Bool.true_and _)

mutual

/-- A piece leaves open as many images as before, and if it may stand in them, it breaks no rule. -/
theorem imagesPlain_events (images : Nat) (rest : List Event) : (node : Node) → node.faults = 0 →
    (images = 0 ∧ node.captives = 0 ∨ node.references = 0) →
      imagesPlain images (node.events ++ rest) = imagesPlain images rest
  | .leaf event, faultless, fits => by
    have isLeaf : event.isLeaf = true := by
      rw [Node.faults] at faultless
      by_contra other
      rw [if_neg other] at faultless
      cases faultless
    refine imagesPlain_leaf isLeaf (fits.imp And.left fun none => ?_)
    rw [Node.references] at none
    by_contra refers
    rw [if_pos (by simpa using refers)] at none
    cases none
  | .span tag content, faultless, fits => by
    have isInline : tag.isInline = true ∧ Node.faultsOf content = 0 := by
      rw [Node.faults] at faultless
      by_cases isInline : tag.isInline = true
      · exact ⟨isInline, by omega⟩
      · rw [if_neg isInline] at faultless
        omega
    have inner : images + tag.imageCount = 0 ∧ Node.captivesOf content = 0 ∨ Node.referencesOf content = 0 := by
      rcases fits with ⟨outside, none⟩ | none
      · rw [Node.captives] at none
        by_cases image : tag.isImage = true
        · rw [if_pos image] at none
          exact Or.inr none
        · rw [if_neg image] at none
          exact Or.inl ⟨by rw [outside, Tag.imageCount, if_neg image], none⟩
      · exact Or.inr none
    rw [Node.events, List.cons_append, List.append_assoc, imagesPlain, isInline.1, Bool.or_true, Bool.true_and,
      imagesPlain_eventsOf _ _ content isInline.2 inner, List.singleton_append, imagesPlain, Nat.add_sub_cancel]

/-- The same of some pieces. -/
theorem imagesPlain_eventsOf (images : Nat) (rest : List Event) : (nodes : List Node) → Node.faultsOf nodes = 0 →
    (images = 0 ∧ Node.captivesOf nodes = 0 ∨ Node.referencesOf nodes = 0) →
      imagesPlain images (Node.eventsOf nodes ++ rest) = imagesPlain images rest
  | [], _, _ => rfl
  | node :: others, faultless, fits => by
    rw [Node.faultsOf] at faultless
    rw [Node.captivesOf, Node.referencesOf] at fits
    rw [Node.eventsOf, List.append_assoc, imagesPlain_events images _ node (by omega) (by omega),
      imagesPlain_eventsOf images rest others (by omega) (by omega)]

end

/-- The pieces of a block of text. -/
theorem tame_contentNodes (definitions : Definitions) (content : Content) :
    let pieces := resolve (.ofContent content) definitions [] [] (tokens content)
    Node.faultsOf (pairDelimiters pieces.reverse) = 0 ∧ Node.captivesOf (pairDelimiters pieces.reverse) = 0 := by
  intro pieces
  have tame : ∀ piece ∈ pieces.reverse, piece.Tame := fun piece member =>
    @tame_resolve _ _ [] [] _ (fun _ absent => absurd absent List.not_mem_nil) piece (List.mem_reverse.mp member)
  exact ⟨faultsOf_of_tame tame, captivesOf_of_tame tame⟩

mutual

theorem isInline_of_mem_events : (node : Node) → node.faults = 0 → ∀ event ∈ node.events, event.isInline = true
  | .leaf event, faultless => by
    intro other member
    rw [Node.events, List.mem_singleton] at member
    rw [member]
    unfold Node.faults at faultless
    split at faultless
    next isLeaf => cases event <;> first | exact isLeaf | cases isLeaf
    next => cases faultless
  | .span tag content, faultless => by
    intro event member
    unfold Node.faults at faultless
    split at faultless
    next isInline =>
      rw [Node.events, List.mem_cons, List.mem_append, List.mem_singleton] at member
      rcases member with rfl | inner | rfl
      · exact isInline
      · exact isInline_of_mem_eventsOf content (by omega) event inner
      · exact isInline
    next => omega

/-- Pieces of a line have no other events. -/
theorem isInline_of_mem_eventsOf : (nodes : List Node) → Node.faultsOf nodes = 0 →
    ∀ event ∈ Node.eventsOf nodes, event.isInline = true
  | [], _ => fun _ absent => absurd absent List.not_mem_nil
  | node :: rest, faultless => by
    intro event member
    unfold Node.faultsOf at faultless
    rw [Node.eventsOf, List.mem_append] at member
    rcases member with first | later
    · exact isInline_of_mem_events node (by omega) event first
    · exact isInline_of_mem_eventsOf rest (by omega) event later

end

/-- The tags of a block of text are closed. -/
theorem nests_contentEvents (definitions : Definitions) (content : Content) :
    Nests BetweenBlocks (contentEvents definitions content) := by
  have nests := (nests_eventsOf _ (tame_contentNodes definitions content).1).mono
    fun _ (within : BetweenBlocks _) => within.2
  unfold contentEvents Content.nodes
  simp only
  split
  next checked _ =>
    have marker : Nests BetweenBlocks [.taskMarker checked] := by
      refine .single (fun stack within => ?_) (fun _ => by simp) fun _ => by simp
      exact ⟨fun image => by simp [within.1] at image, fun code => by simp [within.2] at code⟩
    exact marker.append nests
  next => exact nests

/-- A block of text breaks no rule for images. -/
theorem imagesPlain_contentEvents (definitions : Definitions) (content : Content) (rest : List Event) :
    imagesPlain 0 (contentEvents definitions content ++ rest) = imagesPlain 0 rest := by
  obtain ⟨faultless, noCaptives⟩ := tame_contentNodes definitions content
  have plain := imagesPlain_eventsOf 0 rest _ faultless (Or.inl ⟨rfl, noCaptives⟩)
  unfold contentEvents Content.nodes
  simp only
  split
  next checked _ => exact plain
  next => exact plain

end Galley.Markdown
