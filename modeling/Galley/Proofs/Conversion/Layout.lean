import Galley.Proofs.Conversion.Standing
import Galley.Proofs.Conversion.Streams

/-!
# Where events go while a document is converted

A draft writes events to its body, or to the footnote that is open. What it has done after a stretch of
well-nested events is told by the tree of the stretch alone: what stands in the body for it, and which footnotes
were read in it.

* `tally`, `countReference_tally` — footnotes are numbered in the order of their first references;
* `Relabels` — what later events change about events that were written;
* `LaidOut` — what is written for some events, to the body and to footnotes;
* `Draft.Follows`, `WellNested.follows` — a draft does that.
-/

namespace Galley

open Galley.Markdown (Event Tag tagged LinkTarget)

/-! ## Numbers of footnotes -/

theorem eraseDups_concat (keys : List String) (key : String) :
    (keys ++ [key]).eraseDups = if key ∈ keys then keys.eraseDups else keys.eraseDups ++ [key] := by
  have one : [key].eraseDups = [key] := by
    rw [List.eraseDups_cons]
    rfl
  rw [List.eraseDups_append]
  split
  next known => simp [List.removeAll, known]
  next fresh => simp [List.removeAll, fresh, one]

theorem nodup_eraseDups (keys : List String) : keys.eraseDups.Nodup := by
  induction keys using List.reverseRecOn with
  | nil => exact List.nodup_nil
  | append_singleton keys key ih =>
    rw [eraseDups_concat]
    split
    next => exact ih
    next fresh =>
      refine List.nodup_append.mpr ⟨ih, List.nodup_singleton key, fun old member new same => ?_⟩
      rw [List.mem_singleton.mp same]
      rintro rfl
      exact fresh (List.mem_eraseDups.mp member)

/-- What is known of the first occurrences does not change later. -/
theorem idxOf_eraseDups_of_starts {front all : List String} {key : String} (first : front <+: all)
    (member : key ∈ front) : all.eraseDups.idxOf key = front.eraseDups.idxOf key := by
  obtain ⟨more, rfl⟩ := first
  rw [List.eraseDups_append, List.idxOf_append_of_mem (List.mem_eraseDups.mpr member)]

/-- Keys in the order of their first occurrences, and how often each of them occurs. -/
def tally (keys : List String) : List (String × Nat) := keys.eraseDups.map fun key => (key, keys.count key)

theorem countReference_map {keys : List String} (distinct : keys.Nodup) {times : String → Nat} {key : String}
    (fresh : key ∉ keys → times key = 0) (number : Nat) :
    Draft.countReference key number (keys.map fun other => (other, times other)) =
      ((if key ∈ keys then keys else keys ++ [key]).map fun other =>
          (other, if other = key then times other + 1 else times other),
        number + keys.idxOf key, times key + 1) := by
  induction keys generalizing number with
  | nil => simp [Draft.countReference, fresh]
  | cons first rest ih =>
    obtain ⟨notInRest, distinct⟩ := List.nodup_cons.mp distinct
    rw [List.map_cons, Draft.countReference]
    by_cases same : first = key
    · subst same
      have others : ∀ other ∈ rest, other ≠ first := fun other member equal => notInRest (equal ▸ member)
      simp +contextual [others]
    · have apart : ¬ key = first := fun equal => same equal.symm
      have missing : key ∉ rest → times key = 0 := fun absent => fresh (by simp [apart, absent])
      simp only [beq_iff_eq, same, if_false, ih distinct missing, List.mem_cons, apart, false_or,
        List.idxOf_cons_ne _ (Ne.intro same)]
      split <;> simp [same] <;> omega

/-- One more reference to a footnote: it gets the place of its first reference as its number. -/
theorem countReference_tally (keys : List String) (key : String) :
    Draft.countReference key 1 (tally keys) =
      (tally (keys ++ [key]), (keys ++ [key]).eraseDups.idxOf key + 1, keys.count key + 1) := by
  have fresh : key ∉ keys.eraseDups → keys.count key = 0 := fun absent =>
    List.count_eq_zero.mpr fun member => absent (List.mem_eraseDups.mpr member)
  have counts (other : String) :
      (if other = key then keys.count other + 1 else keys.count other) = (keys ++ [key]).count other := by
    rw [List.count_append, List.count_singleton]
    split
    next same => simp [same]
    next other => simp [Ne.symm other]
  have place : keys.eraseDups.idxOf key = (keys ++ [key]).eraseDups.idxOf key := by
    rw [eraseDups_concat]
    split
    next => rfl
    next absent =>
      rw [← List.mem_eraseDups] at absent
      simp [List.idxOf_append, absent, List.idxOf_of_notMem]
  unfold tally
  rw [countReference_map (nodup_eraseDups keys) fresh, ← place, eraseDups_concat]
  simp only [counts, List.mem_eraseDups, Nat.add_comm 1]

/-! ## Labels of events that were written -/

/-- What later events change about an event that was written: a heading gets an id, and the item of a box a
    class. -/
inductive Relabels : Event → Event → Prop where
  | same (event : Event) : Relabels event event
  | heading (level : Nat) (id id' : Option String) :
      Relabels (.start (.heading level id)) (.start (.heading level id'))
  | task : Relabels (.start .item) (.html "<li class=\"task-list-item\">")

/-- Events of which some have other labels. -/
def Relabelled : List Event → List Event → Prop := List.Forall₂ Relabels

theorem Relabels.trans {a b c : Event} (first : Relabels a b) (second : Relabels b c) : Relabels a c := by
  cases first with
  | same => exact second
  | heading level id id' =>
    cases second with
    | same => exact .heading level id id'
    | heading _ _ id'' => exact .heading level id id''
  | task =>
    cases second with
    | same => exact .task

namespace Relabelled

variable {events changed later front back : List Event}

theorem refl (events : List Event) : Relabelled events events := List.forall₂_same.mpr fun event _ => .same event

theorem trans (first : Relabelled events changed) (second : Relabelled changed later) : Relabelled events later := by
  induction first generalizing later with
  | nil => exact second
  | cons event _ ih =>
    obtain ⟨changed', rest, event', more, rfl⟩ := List.forall₂_cons_left_iff.mp second
    exact List.Forall₂.cons (event.trans event') (ih more)

theorem append {front' back' : List Event} (first : Relabelled front front') (second : Relabelled back back') :
    Relabelled (front ++ back) (front' ++ back') :=
  List.rel_append first second

theorem reverse (relabelled : Relabelled events changed) : Relabelled events.reverse changed.reverse :=
  List.forall₂_reverse_iff.mpr relabelled

theorem of_append (relabelled : Relabelled (front ++ back) changed) :
    ∃ front' back', changed = front' ++ back' ∧ Relabelled front front' ∧ Relabelled back back' := by
  induction front generalizing changed with
  | nil => exact ⟨[], changed, rfl, .nil, relabelled⟩
  | cons event rest ih =>
    obtain ⟨event', rest', first, more, rfl⟩ := List.forall₂_cons_left_iff.mp relabelled
    obtain ⟨front', back', rfl, before, after⟩ := ih more
    exact ⟨event' :: front', back', rfl, .cons first before, after⟩

theorem of_singleton {event : Event} (relabelled : Relabelled [event] changed) :
    ∃ event', changed = [event'] ∧ Relabels event event' := by
  obtain ⟨event', rest, first, more, rfl⟩ := List.forall₂_cons_left_iff.mp relabelled
  rw [List.forall₂_nil_left_iff.mp more]
  exact ⟨event', rfl, first⟩

theorem changeLatest {change? : Event → Option Event}
    (relabels : ∀ event changed, change? event = some changed → Relabels event changed) (events : List Event) :
    Relabelled events (Draft.changeLatest change? events) := by
  induction events with
  | nil => exact .nil
  | cons event rest ih =>
    unfold Draft.changeLatest
    split
    next changed made => exact .cons (relabels event changed made) (refl rest)
    next => exact .cons (.same event) ih

end Relabelled

theorem relabels_withId? {id : String} {event changed : Event} (made : Draft.withId? id event = some changed) :
    Relabels event changed := by
  unfold Draft.withId? at made
  split at made
  · exact Option.some.inj made ▸ .heading _ _ _
  · cases made

theorem relabels_asTask? {event changed : Event} (made : Draft.asTask? event = some changed) :
    Relabels event changed := by
  unfold Draft.asTask? at made
  split at made
  · exact Option.some.inj made ▸ .task
  · cases made

/-! ## What is written -/

/-- A tag as it is opened: what it leads to has no tokens. -/
def openedTag (sources : Sources) : Tag → Tag
  | .link mailbox target => .link mailbox (Draft.unmaskTarget sources target)
  | .image target => .image (Draft.unmaskTarget sources target)
  | tag => tag

/-- A single event as it is written, in a number of images. -/
def singleOf (sources : Sources) (images : Nat) : Event → Event
  | .text t => .text (Shortcode.expand (if 0 < images then sources.extraction.unmask t else t))
  | .code t => .code (sources.extraction.unmask t)
  | event => event

/-- A footnote that was read: its key and its events. -/
abbrev Note := String × List Event

/-- What is written for some events that stand in a number of images, behind references to some footnotes: to the
    body, and to the footnotes that are defined. `order` holds the keys of all footnotes that are referred to. -/
inductive LaidOut (sources : Sources) (order : List String) :
    (images : Nat) → (earlier : List String) → (events body : List Event) → (notes : List Note) → Prop where
  | nil {images : Nat} {earlier : List String} : LaidOut sources order images earlier [] [] []
  | single {images : Nat} {earlier : List String} {event : Event} (single : event.isSingle = true)
      (other : event.isReference = false) :
      LaidOut sources order images earlier [event] [singleOf sources images event] []
  | reference {images : Nat} {earlier : List String} {label : String}
      (known : Draft.footnoteKey label ∈ sources.defined) :
      LaidOut sources order images earlier [.footnoteReference label]
        [.inlineHtml (Draft.referenceMarkup (order.idxOf (Draft.footnoteKey label) + 1)
          (earlier.count (Draft.footnoteKey label) + 1))] []
  | unknown {images : Nat} {earlier : List String} {label : String}
      (unknown : Draft.footnoteKey label ∉ sources.defined) :
      LaidOut sources order images earlier [.footnoteReference label] [.text ("[^" ++ label ++ "]")] []
  | around {images : Nat} {earlier : List String} {tag : Tag} {opener : Event} {inner written : List Event}
      {notes : List Note} (noCode : tag.isCode = false) (noNote : tag.isFootnote = false)
      (opened : Relabels (.start (openedTag sources tag)) opener)
      (inside : LaidOut sources order (images + tag.imageCount) earlier inner written notes) :
      LaidOut sources order images earlier (tagged tag inner) (opener :: (written ++ [.stop tag])) notes
  | code {images : Nat} {earlier : List String} (info : Option String) (texts : List String)
      (diagrams : Code.PassDiagrams) :
      LaidOut sources order images earlier (tagged (.codeBlock info) (texts.map .text))
        [.html (sources.registry.render
          ⟨info.getD "", sources.extraction.unmask (String.join texts)⟩ diagrams).1] []
  | note {images : Nat} {earlier : List String} {label : String} {inner written : List Event}
      (inside : LaidOut sources order images earlier inner written []) :
      LaidOut sources order images earlier (tagged (.footnoteDefinition label) inner) []
        [(Draft.footnoteKey label, written)]
  | append {images : Nat} {earlier : List String} {front back body body' : List Event} {notes notes' : List Note}
      (first : LaidOut sources order images earlier front body notes)
      (second : LaidOut sources order images (earlier ++ referredKeys sources.defined front) back body' notes') :
      LaidOut sources order images earlier (front ++ back) (body ++ body') (notes ++ notes')

variable {sources : Sources} {order earlier : List String} {images : Nat} {events body : List Event}
  {notes : List Note}

theorem isSingle_singleOf {event : Event} (single : event.isSingle = true) :
    (singleOf sources images event).isSingle = true := by
  cases event <;> first | rfl | cases single

/-- Only a start of a heading and of an item have labels. -/
theorem Relabels.of_single {event changed : Event} (single : event.isSingle = true)
    (relabels : Relabels event changed) : changed = event := by
  cases relabels with
  | same => rfl
  | heading => cases single
  | task => cases single

namespace LaidOut

/-- Events that were written may get other labels later. -/
theorem relabel {changed : List Event} (laidOut : LaidOut sources order images earlier events body notes)
    (relabelled : Relabelled body changed) : LaidOut sources order images earlier events changed notes := by
  induction laidOut generalizing changed with
  | nil =>
    rw [List.forall₂_nil_left_iff.mp relabelled]
    exact .nil
  | single single other =>
    obtain ⟨event', rfl, relabels⟩ := relabelled.of_singleton
    rw [relabels.of_single (isSingle_singleOf single)]
    exact .single single other
  | reference known =>
    obtain ⟨event', rfl, relabels⟩ := relabelled.of_singleton
    rw [relabels.of_single rfl]
    exact .reference known
  | unknown unknown =>
    obtain ⟨event', rfl, relabels⟩ := relabelled.of_singleton
    rw [relabels.of_single rfl]
    exact .unknown unknown
  | around noCode noNote opened inside ih =>
    obtain ⟨opener', rest, first, more, rfl⟩ := List.forall₂_cons_left_iff.mp relabelled
    obtain ⟨written', closer, rfl, within, last⟩ := Relabelled.of_append more
    obtain ⟨closer', rfl, relabels⟩ := last.of_singleton
    cases relabels
    exact .around noCode noNote (opened.trans first) (ih within)
  | code info texts diagrams =>
    obtain ⟨event', rfl, relabels⟩ := relabelled.of_singleton
    rw [relabels.of_single rfl]
    exact .code info texts diagrams
  | note inside ih =>
    rw [List.forall₂_nil_left_iff.mp relabelled]
    exact .note inside
  | append first second ih ih' =>
    obtain ⟨front', back', rfl, before, after⟩ := relabelled.of_append
    exact .append (ih before) (ih' after)

/-- The footnotes that are read are those that are defined. -/
theorem keys (laidOut : LaidOut sources order images earlier events body notes) :
    notes.map Prod.fst = definedFootnotes events := by
  induction laidOut with
  | nil => rfl
  | @single _ _ event single other => cases event <;> first | rfl | cases single
  | reference | unknown => rfl
  | @around _ _ tag opener inner written notes noCode noNote opened inside ih =>
    rw [definedFootnotes_tagged noNote]
    exact ih
  | code info texts =>
    rw [definedFootnotes_tagged rfl, definedFootnotes_texts]
    rfl
  | note inside ih =>
    rw [definedFootnotes_footnote, ← ih]
    rfl
  | append first second ih ih' => rw [List.map_append, ih, ih', definedFootnotes_append]

end LaidOut

/-! ## What a draft does -/

namespace Draft

variable {state middle final : Draft} {key : String}

/-- What has been written where events go now, the latest first. -/
def current (state : Draft) : List Event := state.footnote.elim state.out Prod.snd

theorem current_mapEvents (f : List Event → List Event) : (state.mapEvents f).current = f state.current := by
  unfold mapEvents
  split
  next reading => simp [current, reading]
  next reading => simp [current, reading]

theorem key_mapEvents (f : List Event → List Event) :
    (state.mapEvents f).footnote.map Prod.fst = state.footnote.map Prod.fst := by
  unfold mapEvents
  split
  next reading => simp [reading]
  next => rfl

theorem out_mapEvents (f : List Event → List Event) (reading : state.footnote.isSome = true) :
    (state.mapEvents f).out = state.out := by
  unfold mapEvents
  split
  next => rfl
  next absent => simp [absent] at reading

theorem references_mapEvents (f : List Event → List Event) : (state.mapEvents f).references = state.references := by
  unfold mapEvents
  split <;> rfl

theorem definitions_mapEvents (f : List Event → List Event) :
    (state.mapEvents f).definitions = state.definitions := by
  unfold mapEvents
  split <;> rfl

/-- A draft has written some events to where events go, and may have given other labels to those before. -/
structure Moves (state final : Draft) (body : List Event) : Prop where
  current : ∃ before, Relabelled state.current before ∧ final.current = body.reverse ++ before
  key : final.footnote.map Prod.fst = state.footnote.map Prod.fst
  out : state.footnote.isSome = true → final.out = state.out

namespace Moves

theorem of_same (footnote : final.footnote = state.footnote) (out : final.out = state.out) :
    Moves state final [] where
  current := ⟨state.current, .refl _, by simp [Draft.current, footnote, out]⟩
  key := by rw [footnote]
  out _ := out

theorem isSome_footnote {body : List Event} (moves : Moves state final body) :
    final.footnote.isSome = state.footnote.isSome := by
  rw [← Option.isSome_map, moves.key, Option.isSome_map]

theorem trans {front back : List Event} (first : Moves state middle front) (second : Moves middle final back) :
    ∃ front', Relabelled front front' ∧ Moves state final (front' ++ back) := by
  obtain ⟨before, relabelled, same⟩ := first.current
  obtain ⟨before', relabelled', same'⟩ := second.current
  rw [same] at relabelled'
  obtain ⟨front', before'', rfl, written, earlier⟩ := relabelled'.of_append
  refine ⟨front'.reverse, by simpa using written.reverse, ⟨before'', relabelled.trans earlier, by simp [same']⟩,
    by rw [second.key, first.key], fun reading => ?_⟩
  rw [second.out (first.isSome_footnote.trans reading), first.out reading]

theorem push {body : List Event} (moves : Moves state middle body) (event : Event) :
    Moves state (middle.push event) (body ++ [event]) where
  current := by
    obtain ⟨before, relabelled, same⟩ := moves.current
    exact ⟨before, relabelled, by simp [Draft.push, current_mapEvents, same]⟩
  key := (key_mapEvents _).trans moves.key
  out reading := (out_mapEvents _ (moves.isSome_footnote.trans reading)).trans (moves.out reading)

theorem relabel {f : List Event → List Event} (moves : Moves state middle [])
    (relabelled : ∀ events, Relabelled events (f events)) : Moves state (middle.mapEvents f) [] where
  current := by
    obtain ⟨before, first, same⟩ := moves.current
    exact ⟨f before, first.trans (relabelled before), by rw [current_mapEvents, same]; rfl⟩
  key := (key_mapEvents _).trans moves.key
  out reading := (out_mapEvents _ (moves.isSome_footnote.trans reading)).trans (moves.out reading)

end Moves

/-- A draft that reads no code has written some events, and read no footnote. -/
structure Writes (state final : Draft) (body : List Event) (images : Nat) (references : List (String × Nat)) :
    Prop extends Moves state final body where
  code : final.code = none
  images : final.imageDepth = images
  references : final.references = references
  definitions : final.definitions = state.definitions

namespace Writes

variable {images : Nat} {references : List (String × Nat)} {body : List Event}

theorem push (writes : Writes state middle body images references) (event : Event) :
    Writes state (middle.push event) (body ++ [event]) images references where
  toMoves := writes.toMoves.push event
  code := (frames_mapEvents _ _).code.trans writes.code
  images := (frames_mapEvents _ _).images.trans writes.images
  references := (references_mapEvents _).trans writes.references
  definitions := (definitions_mapEvents _).trans writes.definitions

theorem relabel {f : List Event → List Event} (writes : Writes state middle [] images references)
    (relabelled : ∀ events, Relabelled events (f events)) :
    Writes state (middle.mapEvents f) [] images references where
  toMoves := writes.toMoves.relabel relabelled
  code := (frames_mapEvents _ _).code.trans writes.code
  images := (frames_mapEvents _ _).images.trans writes.images
  references := (references_mapEvents _).trans writes.references
  definitions := (definitions_mapEvents _).trans writes.definitions

end Writes

/-- Nothing is written when only what is read besides the events changes. -/
theorem writes_nil (footnote : final.footnote = state.footnote) (out : final.out = state.out)
    (definitions : final.definitions = state.definitions) (code : final.code = none) :
    Writes state final [] final.imageDepth final.references where
  toMoves := .of_same footnote out
  code := code
  images := rfl
  references := rfl
  definitions := definitions

theorem writes_endHeading (outside : state.code = none) :
    Writes state state.endHeading [] state.imageDepth state.references := by
  unfold endHeading
  split
  next => exact writes_nil rfl rfl rfl outside
  next text reading =>
    have closed : Writes state { state with heading := none, used := (state.used.assign text).2 } []
        state.imageDepth state.references := writes_nil rfl rfl rfl outside
    generalize state.used.assign text = assigned at closed
    simp only
    split
    next => exact closed
    next id given => exact closed.relabel (.changeLatest fun _ _ made => relabels_withId? made)

/-! ### Single events -/

theorem step_of_outside (outside : state.code = none) (event : Event) :
    step sources state event = state.stepOutside sources event := by
  unfold step
  simp only [outside]

theorem writes_single {event : Event} (single : event.isSingle = true)
    (other : event.isReference = false) (outside : state.code = none) :
    Writes state (step sources state event) [singleOf sources state.imageDepth event] state.imageDepth
      state.references := by
  have heard (heading : Option String) : Writes state { state with heading } [] state.imageDepth state.references :=
    writes_nil rfl rfl rfl outside
  rw [step_of_outside outside]
  cases event with
  | start tag => cases single
  | stop tag => cases single
  | footnoteReference label => cases other
  | text t => exact (heard _).push _
  | code t => exact (heard _).push _
  | taskMarker isChecked =>
    exact ((heard state.heading).relabel (.changeLatest fun _ _ made => relabels_asTask? made)).push _
  | _ => exact (heard state.heading).push _

/-- A footnote is referred to by its place among all first references, and the references to it are counted. -/
theorem writes_reference {label : String} {all : List String} (outside : state.code = none)
    (counted : state.references = tally earlier)
    (first : earlier ++ referredKeys sources.defined [.footnoteReference label] <+: all) :
    ∃ body, LaidOut sources all.eraseDups state.imageDepth earlier [.footnoteReference label] body [] ∧
      Writes state (step sources state (.footnoteReference label)) body state.imageDepth
        (tally (earlier ++ referredKeys sources.defined [.footnoteReference label])) := by
  rw [step_of_outside outside]
  change ∃ body, _ ∧ Writes state (state.reference sources label) _ _ _
  by_cases known : footnoteKey label ∈ sources.defined
  · have keys : referredKeys sources.defined [.footnoteReference label] = [footnoteKey label] := by
      simp [referredKeys, referredKey?, known]
    rw [keys] at first ⊢
    have counting : Writes state { state with references := tally (earlier ++ [footnoteKey label]) } []
        state.imageDepth (tally (earlier ++ [footnoteKey label])) := writes_nil rfl rfl rfl outside
    refine ⟨_, .reference known, ?_⟩
    rw [Draft.reference, if_pos (by simpa using known), counted, countReference_tally,
      idxOf_eraseDups_of_starts first (by simp)]
    exact counting.push _
  · have keys : referredKeys sources.defined [.footnoteReference label] = [] := by
      simp [referredKeys, referredKey?, known]
    have same : Writes state state [] state.imageDepth state.references := writes_nil rfl rfl rfl outside
    refine ⟨_, .unknown known, ?_⟩
    rw [Draft.reference, if_neg (by simpa using known), keys, List.append_nil, ← counted]
    exact same.push _

/-! ### Tags -/

/-- A tag that is neither code nor a footnote is opened. -/
theorem writes_start (sources : Sources) {tag : Tag} (noCode : tag.isCode = false) (noNote : tag.isFootnote = false)
    (outside : state.code = none) :
    Writes state (step sources state (.start tag)) [.start (openedTag sources tag)]
      (state.imageDepth + tag.imageCount) state.references := by
  have same : Writes state state [] state.imageDepth state.references := writes_nil rfl rfl rfl outside
  rw [step_of_outside outside]
  cases tag with
  | codeBlock info => cases noCode
  | footnoteDefinition label => cases noNote
  | heading level id =>
    have opened := same.push (.start (.heading level id))
    exact ⟨⟨opened.current, opened.key, opened.out⟩, opened.code, opened.images, opened.references,
      opened.definitions⟩
  | image target =>
    have deeper : Writes state { state with imageDepth := state.imageDepth + 1 } [] (state.imageDepth + 1)
        state.references := writes_nil rfl rfl rfl outside
    exact deeper.push _
  | _ => exact same.push _

/-- A tag that is neither code nor a footnote is closed. -/
theorem writes_stop (sources : Sources) {tag : Tag} (noCode : tag.isCode = false) (noNote : tag.isFootnote = false)
    (outside : state.code = none) :
    Writes state (step sources state (.stop tag)) [.stop tag] (state.imageDepth - tag.imageCount) state.references := by
  have same : Writes state state [] state.imageDepth state.references := writes_nil rfl rfl rfl outside
  rw [step_of_outside outside]
  cases tag with
  | codeBlock info => cases noCode
  | footnoteDefinition label => cases noNote
  | heading level id => exact (writes_endHeading outside).push _
  | image target =>
    have shallower : Writes state { state with imageDepth := state.imageDepth - 1 } [] (state.imageDepth - 1)
        state.references := writes_nil rfl rfl rfl outside
    exact shallower.push _
  | _ => exact same.push _

/-- Code is collected until its end, and then written at once. -/
theorem writes_code (sources : Sources) (info : Option String) (texts : List String) (outside : state.code = none) :
    ∃ diagrams, Writes state ((tagged (.codeBlock info) (texts.map .text)).foldl (step sources) state)
      [.html (sources.registry.render
        ⟨info.getD "", sources.extraction.unmask (String.join texts)⟩ diagrams).1]
      state.imageDepth state.references := by
  have collects (texts : List String) (code : String) :
      (texts.map Event.text).foldl (step sources) { state with code := some ⟨info.getD "", code⟩ } =
        { state with code := some ⟨info.getD "", texts.foldl (· ++ ·) code⟩ } := by
    induction texts generalizing code with
    | nil => rfl
    | cons text rest ih => exact ih (code ++ text)
  have ends : (tagged (.codeBlock info) (texts.map .text)).foldl (step sources) state =
      endCode { state with code := some ⟨info.getD "", String.join texts⟩ } sources
        ⟨info.getD "", String.join texts⟩ := by
    rw [tagged, List.foldl_cons, List.foldl_append, step_of_outside outside]
    change (([Event.stop (.codeBlock info)]).foldl (step sources)
      ((texts.map Event.text).foldl (step sources) { state with code := some ⟨info.getD "", ""⟩ })) = _
    rw [collects]
    rfl
  refine ⟨state.diagrams, ?_⟩
  rw [ends]
  unfold endCode
  simp only
  generalize sources.registry.render _ state.diagrams = rendered
  have done : Writes state { state with code := none, diagrams := rendered.2 } [] state.imageDepth state.references :=
    writes_nil rfl rfl rfl rfl
  exact done.push _

/-! ### Stretches of events -/

/-- What a draft has done for some events behind references to some footnotes: it reads no code and is in as many
    images as before, and of the footnotes that it has read the first one with a key counts. -/
structure Ran (sources : Sources) (earlier : List String) (state final : Draft) (events body : List Event)
    (notes : List Note) : Prop extends Moves state final body where
  code : final.code = none
  images : final.imageDepth = state.imageDepth
  references : final.references = tally (earlier ++ referredKeys sources.defined events)
  definitions : ∀ key, final.definitions.lookup key = (state.definitions.lookup key).or (notes.lookup key)

theorem Writes.ran {references : List (String × Nat)} (writes : Writes state final body state.imageDepth references)
    (counted : references = tally (earlier ++ referredKeys sources.defined events)) :
    Ran sources earlier state final events body [] where
  toMoves := writes.toMoves
  code := writes.code
  images := writes.images
  references := writes.references.trans counted
  definitions key := by simp [writes.definitions]

theorem Ran.trans {front back body body' : List Event} {notes notes' : List Note}
    (first : Ran sources earlier state middle front body notes)
    (second : Ran sources (earlier ++ referredKeys sources.defined front) middle final back body' notes') :
    ∃ written, Relabelled body written ∧
      Ran sources earlier state final (front ++ back) (written ++ body') (notes ++ notes') := by
  obtain ⟨written, relabelled, moves⟩ := first.toMoves.trans second.toMoves
  refine ⟨written, relabelled, moves, second.code, second.images.trans first.images, ?_, fun key => ?_⟩
  · rw [second.references, referredKeys_append, List.append_assoc]
  · rw [second.definitions, first.definitions, List.lookup_append, Option.or_assoc]

theorem foldl_tagged (tag : Tag) (inner : List Event) :
    (tagged tag inner).foldl (step sources) state =
      step sources (inner.foldl (step sources) (step sources state (.start tag))) (.stop tag) := by
  rw [tagged, List.foldl_cons, List.foldl_append]
  rfl

theorem ran_around {tag : Tag} {inner : List Event} (noCode : tag.isCode = false) (noNote : tag.isFootnote = false)
    (outside : state.code = none)
    (laidOut : LaidOut sources order (state.imageDepth + tag.imageCount) earlier inner body notes)
    (ran : Ran sources earlier (step sources state (.start tag))
      (inner.foldl (step sources) (step sources state (.start tag))) inner body notes) :
    ∃ written, LaidOut sources order state.imageDepth earlier (tagged tag inner) written notes ∧
      Ran sources earlier state ((tagged tag inner).foldl (step sources) state) (tagged tag inner) written notes := by
  have opened := writes_start sources noCode noNote outside
  have closed := writes_stop sources noCode noNote ran.code
  -- What stands inside may give the opened tag another label, and so may its end.
  obtain ⟨opener, relabelled, moves⟩ := opened.toMoves.trans ran.toMoves
  obtain ⟨opener, rfl, relabels⟩ := relabelled.of_singleton
  obtain ⟨written, relabelled', moves'⟩ := moves.trans closed.toMoves
  obtain ⟨opener', body', relabels', within, rfl⟩ := List.forall₂_cons_left_iff.mp relabelled'
  refine ⟨_, .around noCode noNote (relabels.trans relabels') (laidOut.relabel within), ?_⟩
  rw [foldl_tagged]
  refine ⟨moves', closed.code, ?_, ?_, fun key => ?_⟩
  · rw [closed.images, ran.images, opened.images, Nat.add_sub_cancel]
  · rw [closed.references, ran.references, referredKeys_tagged]
  · rw [closed.definitions, ran.definitions, opened.definitions]

/-- A footnote that is read goes to the list of those that were read, if its key is new, and not to the body. -/
theorem endFootnote_of_reading {events : List Event} (reading : state.footnote = some (key, events)) :
    state.endFootnote.footnote = none ∧ state.endFootnote.out = state.out ∧ state.endFootnote.code = state.code ∧
      state.endFootnote.imageDepth = state.imageDepth ∧ state.endFootnote.references = state.references ∧
      ∀ other, state.endFootnote.definitions.lookup other =
        (state.definitions.lookup other).or ([(key, events.reverse)].lookup other) := by
  unfold endFootnote
  simp only [reading]
  split
  next known =>
    refine ⟨rfl, rfl, rfl, rfl, rfl, fun other => ?_⟩
    by_cases same : other = key
    · subst same
      obtain ⟨value, found⟩ := Option.isSome_iff_exists.mp known
      simp [found]
    · have different : (other == key) = false := by simpa using same
      simp [List.lookup_cons, different]
  next => exact ⟨rfl, rfl, rfl, rfl, rfl, fun other => List.lookup_append⟩

theorem ran_note {label : String} {inner : List Event} (outside : state.code = none) (closed : state.footnote = none)
    (ran : Ran sources earlier (step sources state (.start (.footnoteDefinition label)))
      (inner.foldl (step sources) (step sources state (.start (.footnoteDefinition label)))) inner body []) :
    Ran sources earlier state ((tagged (.footnoteDefinition label) inner).foldl (step sources) state)
      (tagged (.footnoteDefinition label) inner) [] [(footnoteKey label, body)] := by
  rw [foldl_tagged]
  have started : step sources state (.start (.footnoteDefinition label)) =
      { state with footnote := some (footnoteKey label, []) } := step_of_outside outside _
  rw [started] at ran ⊢
  generalize inner.foldl (step sources) _ = middle at ran ⊢
  rw [step_of_outside ran.code]
  change Ran sources earlier state middle.endFootnote _ _ _
  -- The draft writes to the footnote that was opened, and to nothing else.
  obtain ⟨before, relabelled, written⟩ := ran.current
  rw [List.forall₂_nil_left_iff.mp relabelled, List.append_nil] at written
  obtain ⟨footnote, reading, same⟩ := Option.map_eq_some_iff.mp ran.key
  have events : footnote = (footnoteKey label, body.reverse) := by
    rw [Draft.current, reading] at written
    exact Prod.ext same written
  rw [events] at reading
  obtain ⟨ended, out, code, images, references, definitions⟩ := endFootnote_of_reading reading
  refine ⟨.of_same (ended.trans closed.symm) (out.trans (ran.out rfl)), code.trans ran.code,
    images.trans ran.images, ?_, fun key => ?_⟩
  · rw [references, ran.references, referredKeys_tagged]
  · rw [definitions, ran.definitions, List.reverse_reverse]
    simp

/-! ### Trees of events -/

/-- What any draft does for some events is told by their tree. `all` holds the keys of all references. -/
def Follows (sources : Sources) (all : List String) (events : List Event) : Prop :=
  ∀ (state : Draft) (earlier : List String), notesApart state.footnote.isSome events = true → state.code = none →
    state.references = tally earlier → earlier ++ referredKeys sources.defined events <+: all →
      ∃ body notes, LaidOut sources all.eraseDups state.imageDepth earlier events body notes ∧
        Ran sources earlier state (events.foldl (step sources) state) events body notes

variable {all : List String} {tag : Tag} {inner front back : List Event}

theorem follows_nil : Follows sources all [] := by
  intro state earlier _ outside counted _
  have same : Writes state state [] state.imageDepth state.references := writes_nil rfl rfl rfl outside
  exact ⟨[], [], .nil, same.ran (by rw [counted]; simp [referredKeys])⟩

theorem follows_single {event : Event} (single : event.isSingle = true) : Follows sources all [event] := by
  intro state earlier _ outside counted first
  cases refers : event.isReference with
  | true =>
    obtain ⟨label, rfl⟩ := Markdown.Event.eq_of_isReference refers
    obtain ⟨body, laidOut, writes⟩ := writes_reference outside counted first
    exact ⟨body, [], laidOut, writes.ran rfl⟩
  | false =>
    refine ⟨_, [], .single single refers, (writes_single single refers outside).ran ?_⟩
    rw [referredKeys_other refers, List.append_nil, counted]

theorem follows_code (info : Option String) (texts : List String) :
    Follows sources all (tagged (.codeBlock info) (texts.map .text)) := by
  intro state earlier _ outside counted _
  obtain ⟨diagrams, writes⟩ := writes_code sources info texts outside
  refine ⟨_, [], .code info texts diagrams, writes.ran ?_⟩
  rw [referredKeys_tagged, referredKeys_texts, List.append_nil, counted]

namespace Follows

theorem around (follows : Follows sources all inner) (nested : WellNested inner) (noCode : tag.isCode = false)
    (noNote : tag.isFootnote = false) : Follows sources all (tagged tag inner) := by
  intro state earlier apart outside counted first
  rw [referredKeys_tagged] at first
  have opened := writes_start sources noCode noNote outside
  have within : notesApart (step sources state (.start tag)).footnote.isSome inner = true := by
    rw [opened.isSome_footnote]
    exact nested.notesApart_inside noNote apart
  obtain ⟨body, notes, laidOut, ran⟩ := follows _ earlier within opened.code (opened.references.trans counted) first
  rw [opened.images] at laidOut
  obtain ⟨written, laidOut', ran'⟩ := ran_around noCode noNote outside laidOut ran
  exact ⟨written, notes, laidOut', ran'⟩

theorem note {label : String} (follows : Follows sources all inner) (nested : WellNested inner) :
    Follows sources all (tagged (.footnoteDefinition label) inner) := by
  intro state earlier apart outside counted first
  rw [referredKeys_tagged] at first
  obtain ⟨closed, within⟩ := nested.notesApart_footnote apart
  rw [Option.isSome_eq_false_iff, Option.isNone_iff_eq_none] at closed
  have started : step sources state (.start (.footnoteDefinition label)) =
      { state with footnote := some (footnoteKey label, []) } := step_of_outside outside _
  obtain ⟨body, notes, laidOut, ran⟩ := follows { state with footnote := some (footnoteKey label, []) } earlier within
    outside counted first
  obtain rfl : notes = [] := by
    rw [← List.map_eq_nil_iff, laidOut.keys, nested.definedFootnotes_eq_nil within]
  rw [← started] at ran
  exact ⟨[], _, .note laidOut, ran_note outside closed ran⟩

theorem append (first : Follows sources all front) (second : Follows sources all back) (nested : WellNested front) :
    Follows sources all (front ++ back) := by
  intro state earlier apart outside counted early
  rw [nested.notesApart_append, Bool.and_eq_true] at apart
  rw [referredKeys_append, ← List.append_assoc] at early
  obtain ⟨body, notes, laidOut, ran⟩ :=
    first state earlier apart.1 outside counted ((List.prefix_append _ _).trans early)
  have within : notesApart (front.foldl (step sources) state).footnote.isSome back = true := by
    rw [ran.isSome_footnote]
    exact apart.2
  obtain ⟨body', notes', laidOut', ran'⟩ := second _ _ within ran.code ran.references early
  rw [ran.images] at laidOut'
  obtain ⟨written, relabelled, whole⟩ := ran.trans ran'
  rw [List.foldl_append]
  exact ⟨_, _, .append (laidOut.relabel relabelled) laidOut', whole⟩

end Follows

end Draft

/-- What a draft does for well-nested events is told by their tree. -/
theorem WellNested.follows (nested : WellNested events) (all : List String) : Draft.Follows sources all events := by
  induction nested with
  | nil => exact Draft.follows_nil
  | single single => exact Draft.follows_single single
  | @around tag inner noCode inside ih =>
    cases note : tag.isFootnote with
    | true =>
      obtain ⟨label, rfl⟩ := Tag.eq_of_isFootnote note
      exact ih.note inside
    | false => exact ih.around inside noCode note
  | code info texts => exact Draft.follows_code info texts
  | append first _ ih ih' => exact ih.append ih' first

end Galley
