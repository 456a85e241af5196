import Galley.Proofs.Markdown.Levels
import Galley.Proofs.Markdown.Placed
import Galley.Proofs.Sanitizer.Vocabulary

/-!
# Markup of events that is allowed

The writer puts down tags of a short list. Events that say nothing else by themselves are written in the vocabulary of
pages.

* `encodedAddress`, `valueOf_escapeAddress` — an address as it is read from the attribute it is written in;
* `Covered` — an event that keeps to the vocabulary;
* `Worded` — a page that does so, and `Worded.step`, how one event keeps it;
* `reads_write` — the markup of covered events.
-/

namespace Galley.Sanitizer

open Galley.Html (Reads Stage isVerbatim valueOf)
open Galley.Markdown (Alignment Event IsLevel LinkTarget Tag addressByte escapeAddress isAddressByte)

/-! ## Addresses -/

/-- A byte of an address that is encoded. -/
def encodedByte (b : UInt8) : List Char :=
  if isAddressByte b || b == 38 || b == 39 then [Char.ofNat b.toNat]
  else '%' :: (Text.hexDigits b.toNat 2).map Char.toUpper

/-- An address with percent signs for the bytes that cannot stand in it. -/
def encodedAddress (address : String) : List Char := (Text.bytes address).toList.flatMap encodedByte

/-- A byte of an address is written as it is encoded, or it is one of the two that references are written for. -/
theorem addressByte_cases (b : UInt8) :
    (addressByte b = encodedByte b ∧ ∀ c ∈ encodedByte b, isVerbatim c = true) ∨
      (addressByte b = "&amp;".toList ∧ encodedByte b = ['&']) ∨
      (addressByte b = "&#x27;".toList ∧ encodedByte b = ['\x27']) := by
  have all : ∀ n < 256, let b := UInt8.ofNat n
      (addressByte b = encodedByte b ∧ (encodedByte b).all isVerbatim = true) ∨
        (addressByte b = "&amp;".toList ∧ encodedByte b = ['&']) ∨
        (addressByte b = "&#x27;".toList ∧ encodedByte b = ['\x27']) := by decide +kernel
  have here := all b.toNat b.toNat_lt
  simpa only [UInt8.ofNat_toNat, List.all_eq_true] using here

/-- An address as it is written closes no value, and it holds no line break. -/
theorem not_mem_addressBytes (bs : List UInt8) : '\x22' ∉ bs.flatMap addressByte ∧ '\r' ∉ bs.flatMap addressByte := by
  have each : ∀ b, ∀ c ∈ addressByte b, c ≠ '\x22' ∧ c ≠ '\r' := by
    intro b c member
    rcases addressByte_cases b with ⟨same, verbatim⟩ | ⟨written, -⟩ | ⟨written, -⟩
    · rw [same] at member
      have kept := verbatim c member
      simp only [isVerbatim, Bool.and_eq_true, bne_iff_ne] at kept
      exact ⟨kept.1.1.1, kept.1.2⟩
    · rw [written] at member
      constructor <;> rintro rfl <;> exact absurd member (by decide)
    · rw [written] at member
      constructor <;> rintro rfl <;> exact absurd member (by decide)
  simp only [List.mem_flatMap, not_exists, not_and]
  exact ⟨fun b _ member => (each b _ member).1 rfl, fun b _ member => (each b _ member).2 rfl⟩

theorem valueOf_addressBytes (bs : List UInt8) : valueOf (bs.flatMap addressByte) = bs.flatMap encodedByte := by
  induction bs with
  | nil => rfl
  | cons b rest ih =>
    have plain := (not_mem_addressBytes rest).1
    rw [List.flatMap_cons, List.flatMap_cons]
    rcases addressByte_cases b with ⟨same, verbatim⟩ | ⟨written, encoded⟩ | ⟨written, encoded⟩
    · rw [same, Html.valueOf_verbatim verbatim plain, ih]
    · rw [written, encoded, Html.valueOf_ampersand plain, ih]
      rfl
    · rw [written, encoded, Html.valueOf_apostrophe plain, ih]
      rfl

/-- An address is read from its attribute as it is encoded. -/
theorem valueOf_escapeAddress {front : List Char} (verbatim : ∀ c ∈ front, isVerbatim c = true) (address : String) :
    valueOf (front ++ (escapeAddress address).toList) = front ++ encodedAddress address := by
  have plain := (not_mem_addressBytes (Text.bytes address).toList).1
  rw [escapeAddress, String.toList_ofList, Html.valueOf_verbatim verbatim plain, valueOf_addressBytes]
  rfl

/-- The address of a link or an image may stand in a page. -/
def IsSafeDestination (mailbox : Bool) (destination : String) : Prop :=
  isSafeAddress (.ofList ((if mailbox then "mailto:".toList else []) ++ encodedAddress destination)) = true

/-! ## Events -/

/-- An event that keeps to the vocabulary of pages. -/
def Covered : Event → Prop
  | .html markup => Reads written .text markup .text
  | .inlineHtml markup => Reads written .text markup .text
  | .start (.heading level _) => IsLevel level
  | .stop (.heading level _) => IsLevel level
  | .start (.table columns) => ∀ column ∈ columns, column = .unset
  | .start (.link mailbox target) => IsSafeDestination mailbox target.destination
  | .start (.image target) => IsSafeDestination false target.destination
  | _ => True

/-- Where the markup of a page ends: between tags, or in the text of an image. -/
def stageOf (page : Markdown.Page) : Stage := if page.image.isSome then .value "img" else .text

/-- A page whose markup keeps to the vocabulary. -/
structure Worded (page : Markdown.Page) : Prop where
  /-- The markup does so. -/
  markup : Reads written .text page.markup (stageOf page)
  /-- No column is set anywhere. -/
  columns : ∀ column ∈ page.columns, column = Alignment.unset

/-! ## Pieces of markup -/

section pieces

variable {tag attr title : String} {target : LinkTarget} {raw : List Char}

theorem reads_quoted (text : String) : Reads written (.value tag) (Text.escapeAttribute text) (.value tag) :=
  .inValue (not_mem_escapeAttribute text)

theorem reads_number (n : Nat) : Reads written (.value tag) (toString n) (.value tag) :=
  .inValue (not_mem_toString (by decide) n)

theorem reads_escaped (text : String) : Reads written .text (Text.escapeText text) .text :=
  .ofText (not_mem_escapeText text)

/-- The quote behind a value that counts. -/
theorem reads_close {markup : String} {stop : Stage} (listed : written.values tag attr (.ofList (valueOf raw)) = true)
    (reads : Reads written (.inside tag) markup stop) :
    Reads written (.counted tag attr raw.reverse) ("\x22" ++ markup) stop := by
  have quote : "\x22".toList = ['\x22'] := by decide
  unfold Reads at reads ⊢
  rw [String.toList_append, quote]
  apply Stage.after?_cons_eq_some.mpr
  refine ⟨.inside tag, ?_, reads⟩
  simp [Stage.next?, listed]

/-- An address behind what is in front of it. -/
theorem reads_address {front : List Char} (address : String) :
    Reads written (.counted tag attr front.reverse) (escapeAddress address)
      (.counted tag attr (front ++ (escapeAddress address).toList).reverse) := by
  have plain := not_mem_addressBytes (Text.bytes address).toList
  unfold Reads
  rw [List.reverse_append]
  apply Stage.after?_counted
  · rw [escapeAddress, String.toList_ofList]
    exact plain.1
  · rw [escapeAddress, String.toList_ofList]
    exact plain.2

/-- The title behind an address or in the place of the text of an image. -/
theorem reads_titleMarkup {start : Stage} {stop : Stage} {after : String} (ends : Reads written start after stop)
    (opens : Reads written start "\x22 title=\x22" (.value tag)) (closes : Reads written (.value tag) after stop) :
    Reads written start (Markdown.Page.titleMarkup target ++ after) stop := by
  unfold Markdown.Page.titleMarkup
  split
  · exact (Reads.empty start).append ends
  · exact (opens.append (reads_quoted _)).append closes

theorem reads_link {mailbox : Bool} (safe : IsSafeDestination mailbox target.destination) :
    Reads written .text ("<a href=\x22" ++ (if mailbox then "mailto:" else "") ++ escapeAddress target.destination ++
      Markdown.Page.titleMarkup target ++ "\x22>") .text := by
  obtain ⟨front, same⟩ : ∃ front, front = if mailbox then "mailto:".toList else [] := ⟨_, rfl⟩
  have opens : Reads written .text ("<a href=\x22" ++ if mailbox then "mailto:" else "")
      (.counted "a" "href" front.reverse) := by
    rw [same]
    cases mailbox <;> decide
  have verbatim : ∀ c ∈ front, isVerbatim c = true := by
    rw [same]
    cases mailbox <;> exact List.all_eq_true.mp (by decide)
  have listed : written.values "a" "href" (.ofList (valueOf (front ++ (escapeAddress target.destination).toList))) =
      true := by
    unfold IsSafeDestination at safe
    rw [valueOf_escapeAddress verbatim, same]
    simp only [written, Bool.and_eq_true]
    exact ⟨by decide, safe⟩
  have ends : "\x22>" = "\x22" ++ ">" := by decide
  have title : "\x22 title=\x22" = "\x22" ++ " title=\x22" := by decide
  rw [String.append_assoc]
  apply (opens.append (reads_address target.destination)).append
  apply @reads_titleMarkup "a"
  · rw [ends]
    exact reads_close listed (by decide)
  · rw [title]
    exact reads_close listed (by decide)
  · decide

theorem reads_image (safe : IsSafeDestination false target.destination) :
    Reads written .text ("<img src=\x22" ++ escapeAddress target.destination ++ "\x22 alt=\x22") (.value "img") := by
  have opens : Reads written .text "<img src=\x22" (.counted "img" "src" ([] : List Char).reverse) := by decide
  have listed : written.values "img" "src" (.ofList (valueOf (escapeAddress target.destination).toList)) = true := by
    have value := @valueOf_escapeAddress [] (by simp) target.destination
    rw [List.nil_append, List.nil_append] at value
    rw [value]
    simp only [written, Bool.and_eq_true]
    exact ⟨by decide, safe⟩
  have closes : Reads written (.inside "img") " alt=\x22" (.value "img") := by decide
  have split : "\x22 alt=\x22" = "\x22" ++ " alt=\x22" := by decide
  rw [split]
  exact (opens.append (reads_address _)).append (reads_close listed closes)

theorem reads_heading : ∀ level < 7, 1 ≤ level →
    Reads written .text ("<h" ++ toString level) (.name false ((toString level).toList.reverse ++ ['h'])) ∧
    Reads written (.name false ((toString level).toList.reverse ++ ['h'])) " id=\x22" (.value ("h" ++ toString level)) ∧
    Reads written (.name false ((toString level).toList.reverse ++ ['h'])) ">" .text ∧
    Reads written (.value ("h" ++ toString level)) "\x22" (.inside ("h" ++ toString level)) ∧
    Reads written (.inside ("h" ++ toString level)) ">" .text ∧
    Reads written .text ("</h" ++ toString level ++ ">\n") .text := by
  decide

theorem reads_headingMarkup {level : Nat} (isLevel : IsLevel level) (id : Option String) :
    Reads written .text (Markdown.Page.headingMarkup level id) .text := by
  obtain ⟨name, idStart, ends, quote, tagEnd, -⟩ := reads_heading level (Nat.lt_succ_of_le isLevel.2) isLevel.1
  unfold Markdown.Page.headingMarkup
  cases id with
  | none =>
    rw [Option.elim_none, String.append_empty]
    exact name.append ends
  | some text =>
    rw [Option.elim_some]
    exact (name.append ((idStart.append (reads_quoted text)).append quote)).append tagEnd

end pieces

namespace Worded

variable {page : Markdown.Page} {markup : String}

theorem add_columns (page : Markdown.Page) (markup : String) : (page.add markup).columns = page.columns := by
  unfold Markdown.Page.add
  split <;> rfl

/-- More markup that leads back to where the page ends. -/
theorem add (worded : Worded page) (reads : Reads written (stageOf page) markup (stageOf page)) :
    Worded (page.add markup) where
  markup := by
    have same : stageOf (page.add markup) = stageOf page := by simp [stageOf, Markdown.Page.add_image]
    rw [same, Markdown.Page.add_markup]
    exact worded.markup.append reads
  columns := by
    rw [add_columns]
    exact worded.columns

theorem addText (worded : Worded page) (between : page.image = none) (reads : Reads written .text markup .text) :
    Worded (page.add markup) := by
  apply worded.add
  simpa [stageOf, between] using reads

theorem addOnLine (worded : Worded page) (between : page.image = none) (reads : Reads written .text markup .text) :
    Worded (page.addOnLine markup) := by
  unfold Markdown.Page.addOnLine
  apply worded.addText between
  split
  · exact reads
  · have lineBreak : Reads written .text "\n" .text := by decide
    exact lineBreak.append reads

theorem of_same {other : Markdown.Page} (worded : Worded page) (markup : other.markup = page.markup)
    (image : other.image = page.image) (columns : ∀ column ∈ other.columns, column = .unset) : Worded other where
  markup := by
    have same : stageOf other = stageOf page := by simp [stageOf, image]
    rw [markup, same]
    exact worded.markup
  columns := columns

/-! ## Tags -/

/-- Cells say nothing of columns that are set nowhere. -/
theorem reads_cellStart (worded : Worded page) :
    Reads written .text ("<" ++ page.cellName ++ Markdown.Page.alignmentMarkup page.columns[page.cells]?) .text := by
  have plain : Markdown.Page.alignmentMarkup page.columns[page.cells]? = ">" := by
    cases here : page.columns[page.cells]? with
    | none => rfl
    | some column =>
      rw [worded.columns column (List.mem_of_getElem? here)]
      rfl
  rw [plain]
  unfold Markdown.Page.cellName
  split <;> decide

theorem openTag {tag : Tag} (worded : Worded page) (between : page.image = none) (covered : Covered (.start tag)) :
    Worded (page.openTag tag) := by
  have fixed : ∀ {markup : String}, Reads written .text markup .text → Worded (page.add markup) := worded.addText between
  cases tag with
  | paragraph => exact worded.addOnLine between (by decide)
  | heading level id => exact worded.addOnLine between (reads_headingMarkup covered id)
  | blockQuote => exact worded.addOnLine between (by decide)
  | codeBlock => exact worded.addOnLine between (by decide)
  | list start =>
    cases start with
    | none => exact worded.addOnLine between (by decide)
    | some start =>
      apply worded.addOnLine between
      split
      · decide
      · have opens : Reads written .text "<ol start=\x22" (.value "ol") := by decide
        exact (opens.append (reads_number start)).append (by decide)
  | item => exact worded.addOnLine between (by decide)
  | footnoteDefinition => exact worded
  | table columns => exact (fixed (by decide)).of_same rfl rfl covered
  | tableHead =>
    have opened := @fixed "<thead><tr>" (by decide)
    exact opened.of_same rfl rfl opened.columns
  | tableRow =>
    have opened := @fixed "<tr>" (by decide)
    exact opened.of_same rfl rfl opened.columns
  | tableCell => exact fixed worded.reads_cellStart
  | emphasis => exact fixed (by decide)
  | strong => exact fixed (by decide)
  | strikethrough => exact fixed (by decide)
  | link mailbox target => exact fixed (reads_link covered)
  | image target =>
    have text : stageOf page = .text := by simp [stageOf, between]
    have start := worded.markup
    rw [text] at start
    refine ⟨?_, ?_⟩
    · change Reads written .text (page.add _).markup (.value "img")
      rw [Markdown.Page.add_markup]
      exact start.append (reads_image covered)
    · change ∀ column ∈ (page.add _).columns, column = Alignment.unset
      rw [add_columns]
      exact worded.columns

theorem closeTag {tag : Tag} (worded : Worded page) (between : page.image = none) (covered : Covered (.stop tag)) :
    Worded (page.closeTag tag) := by
  have fixed : ∀ {markup : String}, Reads written .text markup .text → Worded (page.add markup) := worded.addText between
  cases tag with
  | heading level id =>
    obtain ⟨low, high⟩ := covered
    exact fixed (reads_heading level (Nat.lt_succ_of_le high) low).2.2.2.2.2
  | list start => cases start <;> exact fixed (by decide)
  | footnoteDefinition => exact worded
  | tableHead =>
    have closed := @fixed "</tr></thead><tbody>\n" (by decide)
    exact closed.of_same rfl rfl closed.columns
  | tableCell =>
    have closed := @fixed ("</" ++ page.cellName ++ ">") (by unfold Markdown.Page.cellName; split <;> decide)
    exact closed.of_same rfl rfl closed.columns
  | image => exact worded
  | _ => exact fixed (by decide)

/-! ## Events -/

/-- In the text of an image all that is written stays in the value of an attribute. -/
theorem addToImage {event : Event} {target : LinkTarget} {depth : Nat} (worded : Worded page)
    (inImage : page.image = some (target, depth)) : Worded (page.addToImage target depth event) := by
  have value : ∀ {markup : String}, Reads written (.value "img") markup (.value "img") → Worded (page.add markup) := by
    intro markup reads
    apply worded.add
    simpa [stageOf, inImage] using reads
  have nested : ∀ depth', Worded { page with image := some (target, depth') } := by
    intro depth'
    have markup := worded.markup
    refine ⟨?_, worded.columns⟩
    simpa [stageOf, inImage] using markup
  cases event with
  | start => exact nested (depth + 1)
  | stop =>
    unfold Markdown.Page.addToImage
    simp only
    split
    · -- The image ends: its title and the end of its tag follow.
      have inValue : stageOf page = .value "img" := by simp [stageOf, inImage]
      have markup := worded.markup
      rw [inValue] at markup
      refine ⟨?_, ?_⟩
      · have text : stageOf ({ page with image := none }.add (Markdown.Page.titleMarkup target ++ "\x22 />")) = .text := by
          simp [stageOf, Markdown.Page.add_image]
        rw [text, Markdown.Page.add_markup]
        apply Reads.append markup
        apply @reads_titleMarkup "img" <;> decide
      · rw [add_columns]
        exact worded.columns
    · exact nested (depth - 1)
  | text text => exact value (reads_quoted text)
  | code code => exact value (reads_quoted code)
  | inlineHtml markup => exact value (reads_quoted markup)
  | html => exact worded
  | footnoteReference => exact worded
  | taskMarker isChecked => exact value (by split <;> decide)
  | softBreak => exact value (by decide)
  | hardBreak => exact value (by decide)
  | rule => exact value (by decide)

theorem step {event : Event} (worded : Worded page) (covered : Covered event) : Worded (page.step event) := by
  unfold Markdown.Page.step
  cases inImage : page.image with
  | some opened => exact worded.addToImage inImage
  | none =>
    have fixed : ∀ {markup : String}, Reads written .text markup .text → Worded (page.add markup) :=
      worded.addText inImage
    cases event with
    | start tag => exact worded.openTag inImage covered
    | stop tag => exact worded.closeTag inImage covered
    | text text => exact fixed (reads_escaped text)
    | code code =>
      have opens : Reads written .text "<code>" .text := by decide
      have closes : Reads written .text "</code>" .text := by decide
      exact fixed ((opens.append (reads_escaped code)).append closes)
    | html markup => exact fixed covered
    | inlineHtml markup => exact fixed covered
    | softBreak => exact fixed (by decide)
    | hardBreak => exact fixed (by decide)
    | rule => exact worded.addOnLine inImage (by decide)
    | footnoteReference => exact worded
    | taskMarker isChecked => exact fixed (by split <;> decide)

theorem foldl {events : List Event} (worded : Worded page) (covered : ∀ event ∈ events, Covered event) :
    Worded (events.foldl Markdown.Page.step page) := by
  induction events generalizing page with
  | nil => exact worded
  | cons event rest ih =>
    obtain ⟨first, others⟩ := List.forall_mem_cons.mp covered
    exact ih (worded.step first) others

end Worded

/-- Covered events are written in the vocabulary of pages. An image without an end leaves the markup in a value. -/
theorem reads_write {events : List Event} (covered : ∀ event ∈ events, Covered event) :
    ∃ stop : Stage, stop.isEnd = true ∧ Reads written .text (Markdown.write events) stop := by
  have start : Worded .empty := ⟨rfl, fun _ absent => absurd absent List.not_mem_nil⟩
  have worded := start.foldl covered
  refine ⟨_, ?_, worded.markup⟩
  unfold stageOf
  split <;> rfl

end Galley.Sanitizer
