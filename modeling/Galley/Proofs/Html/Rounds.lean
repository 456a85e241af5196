import Galley.Proofs.Html.Origin

/-!
# Every rule keeps to the tags

No rule makes an element but of the tag it handles, of formatting that goes on, or of a name that is implied.

* `Keeps` — a way to handle tokens that does so;
* `Builder.Sound.inBody`, `Builder.Sound.inTable` and the others — the rules;
* `Builder.Sound.step` — one token.
-/

namespace Galley.Html

namespace Builder

variable {kind : Element → Prop} {again : Again} {builder : Builder} {tag : StartTag} {token : Token} {name : String}

/-- Handling a token leaves a state whose elements come from tags of some kind, if the token is of the kind. -/
def Keeps (kind : Element → Prop) (again : Again) : Prop :=
  ∀ builder token, Sound kind builder → token.Opens kind → Sound kind (again builder token)

namespace Sound

theorem opens_implied (ordinary : Ordinary kind) (implied : name ∈ impliedNames) :
    (Token.start ⟨name, [], false⟩).Opens kind :=
  ordinary.implied name implied

/-- Whichever way a test goes. -/
theorem either {test : Prop} [Decidable test] {yes no : Builder} (first : Sound kind yes) (second : Sound kind no) :
    Sound kind (if test then yes else no) := by
  split
  · exact first
  · exact second

/-- A tag of the kind does not have a name after which markup is read in another way. -/
theorem name_ne (ordinary : Ordinary kind) (opens : kind tag.element) {other : String}
    (switching : other ∈ switchingNames) : tag.name ≠ other :=
  fun same => ordinary.calm tag.element opens (show tag.name ∈ switchingNames from same ▸ switching)

/-! ## Among text and blocks -/

theorem startInHead (ordinary : Ordinary kind) (sound : Sound kind builder) (opens : kind tag.element) :
    Sound kind (builder.startInHead tag) := by
  have other : ∀ {name : String}, name ∈ switchingNames → (tag.name == name) = false := fun switching =>
    beq_eq_false_iff_ne.mpr (name_ne ordinary opens switching)
  have title := @other "title" (by decide)
  have noframes := @other "noframes" (by decide)
  have style := @other "style" (by decide)
  have script := @other "script" (by decide)
  unfold Builder.startInHead
  simp only [title, noframes, style, script, Bool.or_self, Bool.false_eq_true, if_false]
  exact .either ((sound.mark.insert opens).of_same rfl rfl rfl rfl) (sound.insertVoid opens)

theorem stopTemplate (sound : Sound kind builder) : Sound kind builder.stopTemplate := by
  have closed := ((sound.close (List.dropWhile_sublist (·.isOneOf templateEnds))).popThrough
    ["template"]).clearToMarker
  exact .either (closed.of_same rfl rfl rfl rfl) sound

theorem endItem (sound : Sound kind builder) (names : List String) : Sound kind (builder.endItem names) := by
  unfold Builder.endItem
  split
  · exact (sound.closeImplied _).popThrough _
  · exact sound

theorem insertInLine (sound : Sound kind builder) (opens : kind tag.element) :
    Sound kind (builder.insertInLine tag) :=
  sound.reopenFormatting.insert opens

theorem startOption (sound : Sound kind builder) (opens : kind tag.element) :
    Sound kind (builder.startOption tag) :=
  (either (sound.closeImplied _) (.either sound.pop sound)).insertInLine opens

theorem startLink (sound : Sound kind builder) (opens : kind tag.element) : Sound kind (builder.startLink tag) := by
  unfold Builder.startLink
  split
  next => exact sound.reopenFormatting.insertFormatting opens
  next id _ _ =>
    have ended := ((sound.closeFormatting "a").forgetFormatting id).forgetOpen id
    exact ended.reopenFormatting.insertFormatting opens

theorem startInLine (ordinary : Ordinary kind) (sound : Sound kind builder) (opens : kind tag.element) :
    Sound kind (builder.startInLine again tag) := by
  have inLine := sound.insertInLine opens
  unfold Builder.startInLine
  split
  next => exact sound.startLink opens
  next =>
    have reopened := sound.reopenFormatting
    exact (either (reopened.closeFormatting _).reopenFormatting reopened).insertFormatting opens
  next => exact (either ((sound.closeImplied _).popThrough _) sound).insertInLine opens
  iterate 3 next => exact inLine.mark
  iterate 6 next => exact inLine.pop
  next => exact ((either (sound.popThrough _) sound).insertInLine opens).pop
  next same => exact absurd same (name_ne ordinary opens (by decide))
  iterate 3 next => exact sound.insertVoid opens
  iterate 4 next same => exact absurd same (name_ne ordinary opens (by decide))
  next => exact .either (sound.popThrough _) inLine
  next => exact sound.startOption opens
  next => exact sound.startOption opens
  iterate 4 next => exact (either (sound.closeImplied _) sound).insert opens
  next same => exact absurd same (name_ne ordinary opens (by decide))
  next same => exact absurd same (name_ne ordinary opens (by decide))
  next => exact inLine

theorem startBlock (ordinary : Ordinary kind) (sound : Sound kind builder) (opens : kind tag.element) :
    Sound kind (builder.startBlock again tag) := by
  have ended := sound.endParagraph
  have block := ended.insert opens
  unfold Builder.startBlock
  split
  iterate 6 next => exact (either ended.pop ended).insert opens
  iterate 2 next => exact block.of_same rfl rfl rfl rfl
  next => exact .either sound (.either block (block.of_same rfl rfl rfl rfl))
  next => exact (sound.endItem _).endParagraph.insert opens
  iterate 2 next => exact (sound.endItem _).endParagraph.insert opens
  next same => exact absurd same (name_ne ordinary opens (by decide))
  next => exact block.of_same rfl rfl rfl rfl
  next => exact (either (ended.closeImplied _) ended).insertVoid opens
  next same => exact absurd same (name_ne ordinary opens (by decide))
  next => exact sound.startInLine ordinary opens

theorem startInBody (ordinary : Ordinary kind) (sound : Sound kind builder) (opens : kind tag.element) :
    Sound kind (builder.startInBody again tag) :=
  .either sound (.either (sound.startInHead ordinary opens) (.either (sound.endParagraph.insert opens)
    (.either (sound.reopenFormatting.insertFormatting opens) (sound.startBlock ordinary opens))))

theorem stopForm (sound : Sound kind builder) : Sound kind builder.stopForm := by
  have without : Sound kind { builder with form := none } := sound.of_same rfl rfl rfl rfl
  unfold Builder.stopForm
  refine .either (.either ((sound.closeImplied _).popThrough _) sound) ?_
  split
  · exact without
  · exact .either ((without.closeImplied _).forgetOpen _) without

theorem stopInBody (ordinary : Ordinary kind) (keeps : Keeps kind again) (sound : Sound kind builder)
    (name : String) : Sound kind (builder.stopInBody again name) := by
  have paragraph : Sound kind (if builder.inButtonScope "p" then builder else builder.insertNamed "p").closeParagraph :=
    (either sound (insertNamed ordinary sound (by decide))).closeParagraph
  -- Elements up to one of some names are closed, if it is open here.
  have close : ∀ {isOpen : Bool} {except names : List String},
      Sound kind (if isOpen then (builder.closeImplied except).popThrough names else builder) :=
    either ((sound.closeImplied _).popThrough _) sound
  have barrier : Sound kind (if builder.inScope [name] then
      ((builder.closeImplied []).popThrough [name]).clearToMarker else builder) :=
    either ((sound.closeImplied _).popThrough _).clearToMarker sound
  have again : Sound kind (again builder (.start ⟨"br", [], false⟩)) :=
    keeps _ _ sound (opens_implied ordinary (by decide))
  unfold Builder.stopInBody
  exact .either sound.stopTemplate (.either sound (.either sound.stopForm (.either paragraph (.either close
    (.either close (.either close (.either close (.either (sound.closeFormatting name) (.either barrier
      (.either again (sound.closeOther name)))))))))))

theorem inBody (ordinary : Ordinary kind) (keeps : Keeps kind again) (sound : Sound kind builder)
    (opens : token.Opens kind) : Sound kind (inBody again builder token) := by
  cases token with
  | start tag => exact sound.startInBody ordinary opens
  | stop name => exact sound.stopInBody ordinary keeps name
  | text chars => exact sound.reopenFormatting.addText chars
  | null => exact sound
  | comment => exact sound

theorem inText (sound : Sound kind builder) (token : Token) : Sound kind (inText builder token) := by
  cases token with
  | text chars => exact sound.addText chars
  | stop name => exact sound.pop.of_same rfl rfl rfl rfl
  | _ => exact sound

/-! ## Tables -/

theorem foster (ordinary : Ordinary kind) (keeps : Keeps kind again) (sound : Sound kind builder)
    (opens : token.Opens kind) : Sound kind (foster again builder token) := by
  have fosters : Sound kind { builder with fosters := true } := sound.of_same rfl rfl rfl rfl
  exact (fosters.inBody ordinary keeps opens).of_same rfl rfl rfl rfl

theorem startPart (sound : Sound kind builder) (around : List String) (opens : kind tag.element) (mode : Mode) :
    Sound kind (builder.startPart around tag mode) :=
  ((sound.popTo around).insert opens).of_same rfl rfl rfl rfl

/-- A part of a table without a tag of its own. -/
theorem startImplied (ordinary : Ordinary kind) (sound : Sound kind builder) (around : List String)
    (implied : name ∈ impliedNames) (mode : Mode) : Sound kind (builder.startPart around ⟨name, [], false⟩ mode) :=
  sound.startPart around (opens_implied ordinary implied) mode

theorem startInTable (ordinary : Ordinary kind) (keeps : Keeps kind again) (sound : Sound kind builder)
    (opens : kind tag.element) : Sound kind (builder.startInTable again tag) := by
  have within : ∀ {name : String} {mode : Mode}, name ∈ impliedNames →
      Sound kind (again (builder.startPart ["table", "template"] ⟨name, [], false⟩ mode) (.start tag)) :=
    fun implied => keeps _ _ (sound.startImplied ordinary _ implied _) opens
  unfold Builder.startInTable
  simp only
  split
  next =>
    have caption : Sound kind { builder.popTo ["table", "template"] with mode := .inCaption } :=
      (sound.popTo _).of_same rfl rfl rfl rfl
    exact caption.mark.insert opens
  next => exact sound.startPart _ opens _
  next => exact within (by decide)
  iterate 3 next => exact sound.startPart _ opens _
  iterate 3 next => exact within (by decide)
  next => exact .either (keeps _ _ (sound.popThrough _).resetMode opens) sound
  iterate 3 next => exact sound.startInHead ordinary opens
  next => exact .either (sound.insertVoid opens) (sound.foster ordinary keeps opens)
  next =>
    have opened : Sound kind { builder.insert tag with form := some (builder.insert tag).current.id } :=
      (sound.insert opens).of_same rfl rfl rfl rfl
    exact .either sound opened.pop
  next => exact sound.foster ordinary keeps opens

theorem textInTable (ordinary : Ordinary kind) (keeps : Keeps kind again) (sound : Sound kind builder)
    (opens : token.Opens kind) : Sound kind (textInTable again builder token) := by
  exact .either (keeps _ _ (sound.of_same rfl rfl rfl rfl) opens) (sound.foster ordinary keeps opens)

theorem inTable (ordinary : Ordinary kind) (keeps : Keeps kind again) (sound : Sound kind builder)
    (opens : token.Opens kind) : Sound kind (inTable again builder token) := by
  cases token with
  | text chars => exact sound.textInTable ordinary keeps opens
  | null => exact sound.textInTable ordinary keeps opens
  | comment => exact sound
  | start tag => exact sound.startInTable ordinary keeps opens
  | stop name =>
    exact .either (.either (sound.popThrough _).resetMode sound)
      (.either sound (.either sound.stopTemplate (sound.foster ordinary keeps opens)))

theorem inTableText (ordinary : Ordinary kind) (keeps : Keeps kind again) (sound : Sound kind builder)
    (opens : token.Opens kind) : Sound kind (inTableText again builder token) := by
  have next : Sound kind { builder with mode := builder.returnMode, tableText := [] } :=
    sound.of_same rfl rfl rfl rfl
  -- The text that waits is put into its place first.
  have placed : Sound kind (if builder.tableText.all isSpace then
      { builder with mode := builder.returnMode, tableText := [] }.addText builder.tableText
    else Builder.foster again { builder with mode := builder.returnMode, tableText := [] } (.text builder.tableText)) :=
    .either (next.addText _) (next.foster ordinary keeps trivial)
  cases token with
  | text chars => exact sound.of_same rfl rfl rfl rfl
  | null => exact sound
  | start tag => exact keeps _ _ placed opens
  | stop name => exact keeps _ _ placed opens
  | comment => exact keeps _ _ placed opens

/-- An element that may be closed here, and the state after its end. -/
theorem leave (keeps : Keeps kind again) (sound : Sound kind builder) {ended? : Option Builder}
    (ended : ∀ next ∈ ended?, Sound kind next) (opens : token.Opens kind) :
    Sound kind (leave again builder ended? token) := by
  cases ended? with
  | none => exact sound
  | some next => exact keeps _ _ (ended next rfl) opens

theorem getD (sound : Sound kind builder) {ended? : Option Builder} (ended : ∀ next ∈ ended?, Sound kind next) :
    Sound kind (ended?.getD builder) := by
  cases ended? with
  | none => exact sound
  | some next => exact ended next rfl

theorem endCaption? (sound : Sound kind builder) : ∀ next ∈ builder.endCaption?, Sound kind next := by
  intro next made
  unfold Builder.endCaption? at made
  split at made
  · obtain rfl := Option.some.inj made
    exact (((sound.closeImplied _).popThrough _).clearToMarker).of_same rfl rfl rfl rfl
  · cases made

theorem endColumnGroup? (sound : Sound kind builder) : ∀ next ∈ builder.endColumnGroup?, Sound kind next := by
  intro next made
  unfold Builder.endColumnGroup? at made
  split at made
  · obtain rfl := Option.some.inj made
    exact sound.pop.of_same rfl rfl rfl rfl
  · cases made

theorem endRowGroup? (sound : Sound kind builder) : ∀ next ∈ builder.endRowGroup?, Sound kind next := by
  intro next made
  unfold Builder.endRowGroup? at made
  split at made
  · obtain rfl := Option.some.inj made
    exact (sound.popTo _).pop.of_same rfl rfl rfl rfl
  · cases made

theorem endRow? (sound : Sound kind builder) : ∀ next ∈ builder.endRow?, Sound kind next := by
  intro next made
  unfold Builder.endRow? at made
  split at made
  · obtain rfl := Option.some.inj made
    exact (sound.popTo _).pop.of_same rfl rfl rfl rfl
  · cases made

theorem closeCell (sound : Sound kind builder) (names : List String) : Sound kind (builder.closeCell names) :=
  (((sound.closeImplied _).popThrough _).clearToMarker).of_same rfl rfl rfl rfl

theorem inCaption (ordinary : Ordinary kind) (keeps : Keeps kind again) (sound : Sound kind builder)
    (opens : token.Opens kind) : Sound kind (inCaption again builder token) := by
  have body := sound.inBody ordinary keeps opens
  have left := sound.leave keeps sound.endCaption? opens
  unfold Builder.inCaption
  split
  next => exact .either left body
  next => exact .either (sound.getD sound.endCaption?) (.either left (.either sound body))
  next => exact body

theorem inColumnGroup (ordinary : Ordinary kind) (keeps : Keeps kind again) (sound : Sound kind builder)
    (opens : token.Opens kind) : Sound kind (inColumnGroup again builder token) := by
  have left := sound.leave keeps sound.endColumnGroup? opens
  unfold Builder.inColumnGroup
  split
  next => exact .either (sound.addText _) left
  next => exact sound
  next => exact left
  next =>
    exact .either sound (.either (sound.insertVoid opens) (.either (sound.startInHead ordinary opens) left))
  next =>
    exact .either (sound.getD sound.endColumnGroup?) (.either sound (.either sound.stopTemplate left))

theorem inTableBody (ordinary : Ordinary kind) (keeps : Keeps kind again) (sound : Sound kind builder)
    (opens : token.Opens kind) : Sound kind (inTableBody again builder token) := by
  have table := sound.inTable ordinary keeps opens
  have left := sound.leave keeps sound.endRowGroup? opens
  have closed : Sound kind { (builder.popTo ("template" :: rowGroups)).pop with mode := .inTable } :=
    (sound.popTo _).pop.of_same rfl rfl rfl rfl
  unfold Builder.inTableBody
  simp only
  split
  next =>
    exact .either (sound.startPart _ opens _) (.either (keeps _ _ (sound.startImplied ordinary _ (by decide) _) opens)
      (.either left table))
  next => exact .either (.either closed sound) (.either left (.either sound table))
  next => exact table

theorem inRow (ordinary : Ordinary kind) (keeps : Keeps kind again) (sound : Sound kind builder)
    (opens : token.Opens kind) : Sound kind (inRow again builder token) := by
  have table := sound.inTable ordinary keeps opens
  have left := sound.leave keeps sound.endRow? opens
  unfold Builder.inRow
  split
  next => exact .either (sound.startPart _ opens _).mark (.either left table)
  next =>
    exact .either (sound.getD sound.endRow?) (.either left (.either (.either left sound) (.either sound table)))
  next => exact table

theorem inCell (ordinary : Ordinary kind) (keeps : Keeps kind again) (sound : Sound kind builder)
    (opens : token.Opens kind) : Sound kind (inCell again builder token) := by
  have body := sound.inBody ordinary keeps opens
  have left := keeps _ _ (sound.closeCell ["td", "th"]) opens
  unfold Builder.inCell
  simp only
  split
  next => exact .either (.either left sound) body
  next => exact .either (.either (sound.closeCell _) sound) (.either sound (.either (.either left sound) body))
  next => exact body

theorem inTemplate (ordinary : Ordinary kind) (keeps : Keeps kind again) (sound : Sound kind builder)
    (opens : token.Opens kind) : Sound kind (inTemplate again builder token) := by
  unfold Builder.inTemplate
  split
  next => exact .either (sound.startInHead ordinary opens) (keeps _ _ (sound.of_same rfl rfl rfl rfl) opens)
  next => exact .either sound.stopTemplate sound
  next => exact sound.inBody ordinary keeps opens

/-! ## Tokens -/

theorem byMode (ordinary : Ordinary kind) (keeps : Keeps kind again) (sound : Sound kind builder)
    (opens : token.Opens kind) : Sound kind (byMode again builder token) := by
  unfold Builder.byMode
  split
  · exact sound.inBody ordinary keeps opens
  · exact sound.inText token
  · exact sound.inTable ordinary keeps opens
  · exact sound.inTableText ordinary keeps opens
  · exact sound.inCaption ordinary keeps opens
  · exact sound.inColumnGroup ordinary keeps opens
  · exact sound.inTableBody ordinary keeps opens
  · exact sound.inRow ordinary keeps opens
  · exact sound.inCell ordinary keeps opens
  · exact sound.inTemplate ordinary keeps opens

/-- All open elements are of HTML, so nothing is foreign. -/
theorem current_space (sound : Sound kind builder) : builder.current.space = .html := by
  have spaces := sound.stack.spaces
  unfold Builder.current
  cases opened : builder.opened with
  | nil => rfl
  | cons element rest => exact spaces element (opened ▸ List.mem_cons_self)

/-- However often a token is handled again, each time the rules keep to the tags. -/
theorem keeps_handle (ordinary : Ordinary kind) (fuel : Nat) : Keeps kind (handle fuel) := by
  induction fuel with
  | zero => exact fun _ _ sound _ => sound
  | succ fuel ih =>
    intro builder token sound opens
    have native : isForeign builder.current token = false := by
      rw [isForeign, sound.current_space]
      rfl
    rw [handle, native]
    exact sound.byMode ordinary ih opens

theorem step (ordinary : Ordinary kind) (sound : Sound kind builder) (opens : token.Opens kind) :
    Sound kind (builder.step token) := by
  have keeps := keeps_handle ordinary maxRounds
  have next : Sound kind { builder with skipsBreak := false } := sound.of_same rfl rfl rfl rfl
  unfold Builder.step
  simp only
  split
  next => exact .either (.either next (keeps _ _ next trivial)) (keeps _ _ next opens)
  next => exact keeps _ _ next opens

end Sound
end Builder
end Galley.Html
