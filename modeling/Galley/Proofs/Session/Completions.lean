import Galley.Proofs.Session.Screen

/-!
# Completions

A page that is shown replaces all that was on the screen before. Until the next one the screen only receives
completions, the outcomes of diagrams, and each of them may fill one place of the page.

* `Change`, `Screen.after` — what can happen to a screen, and the screen after it;
* `Screen.receive_eq` — all that a completion can do;
* `Screen.Orderly` — how the places of a page and the pictures belong together;
* `Screen.receiveAll_fst`, `Screen.waitsFor_receive` — completions one after the other;
* `each_place_is_filled_once` — what holds of every screen;
* `completions_in_any_order` — completions may come in any order.
-/

namespace Galley

open Galley.Diagram (PictureError NamedDiagram)

/-- The outcome of a diagram of a pass. -/
structure Completion where
  generation : Nat
  id : String
  outcome : Except PictureError String

/-- The place that a completion is for. -/
def Completion.place (completion : Completion) : Nat × String := (completion.generation, completion.id)

/-- What can happen to a screen. -/
inductive Change where
  | page (generation : Nat) (html : String)
  | completion (completion : Completion)

/-- The outcome of the first completion for a diagram of a pass. -/
def firstOutcome? (generation : Nat) (id : String) (completions : List Completion) :
    Option (Except PictureError String) :=
  (completions.find? fun completion => completion.place = (generation, id)).map Completion.outcome

/-- The pass whose page came last. -/
def lastGeneration (changes : List Change) : Nat :=
  changes.foldl (fun latest change =>
    match change with
    | .page generation _ => generation
    | .completion _ => latest) 0

namespace Screen

variable {screen : Screen} {completion other : Completion} {completions completions' : List Completion}
  {id : String}

/-- The screen after a completion, and what became of it. -/
def receive (screen : Screen) (completion : Completion) : Screen × Settlement :=
  screen.settle completion.generation completion.id completion.outcome

/-- The screen after some completions, and what became of each. -/
def receiveAll : Screen → List Completion → Screen × List Settlement
  | screen, [] => (screen, [])
  | screen, completion :: rest =>
    let (next, settlement) := screen.receive completion
    let (final, settlements) := next.receiveAll rest
    (final, settlement :: settlements)

/-- The screen after a change. -/
def change (screen : Screen) : Change → Screen
  | .page generation html => ofMarkup generation html
  | .completion completion => (screen.receive completion).1

/-- The screen after some changes from the beginning. -/
def after (changes : List Change) : Screen := changes.foldl change .empty

/-- Whether the place of a completion waits for it. -/
def waitsFor (screen : Screen) (completion : Completion) : Bool :=
  completion.generation == screen.generation && (screen.picture? completion.id).any Picture.isAwaited

/-! ## One completion -/

theorem isAwaited_ofOutcome (outcome : Except PictureError String) :
    (Picture.ofOutcome outcome).isAwaited = false := by
  cases outcome <;> rfl

/-- A completion fills its place if the place waits for it, and otherwise it does nothing. -/
theorem receive_eq (screen : Screen) (completion : Completion) :
    screen.receive completion =
      if screen.waitsFor completion then
        ({ screen with
          pictures := setPicture screen.pictures completion.id (.ofOutcome completion.outcome) }, .applied)
      else (screen, .stale) := by
  by_cases own : completion.generation = screen.generation
  · cases shown : screen.picture? completion.id with
    | none => simp [receive, settle, waitsFor, own, shown]
    | some picture => cases picture <;> simp [receive, settle, waitsFor, own, shown, Picture.isAwaited]
  · simp [receive, settle, waitsFor, own]

theorem receive_snd (screen : Screen) (completion : Completion) :
    (screen.receive completion).2 = if screen.waitsFor completion then .applied else .stale := by
  rw [receive_eq]
  split <;> rfl

theorem waits_of_waitsFor (waits : screen.waitsFor completion = true) :
    completion.generation = screen.generation ∧
      ∃ source, screen.picture? completion.id = some (.awaited source) := by
  simp only [waitsFor, Bool.and_eq_true, beq_iff_eq, Option.any_eq_true] at waits
  obtain ⟨own, picture, shown, awaited⟩ := waits
  cases picture with
  | awaited source => exact ⟨own, source, shown⟩
  | _ => cases awaited

theorem generation_receive : (screen.receive completion).1.generation = screen.generation := by
  rw [receive_eq]
  split <;> rfl

theorem segments_receive : (screen.receive completion).1.segments = screen.segments := by
  rw [receive_eq]
  split <;> rfl

/-- A completion that fills its place leaves all others as they were. -/
theorem picture?_receive (waits : screen.waitsFor completion = true) (key : String) :
    (screen.receive completion).1.picture? key =
      if key = completion.id then some (.ofOutcome completion.outcome) else screen.picture? key := by
  obtain ⟨-, source, shown⟩ := waits_of_waitsFor waits
  simp only [receive_eq, waits, if_true, picture?, lookup_setPicture]
  by_cases same : key = completion.id
  · subst same
    rw [picture?] at shown
    simp [shown]
  · simp [same]

/-- Behind a completion the same places wait as before, without the place that it was for. -/
theorem waitsFor_receive (screen : Screen) (completion other : Completion) :
    (screen.receive completion).1.waitsFor other =
      (screen.waitsFor other && decide (completion.place ≠ other.place)) := by
  by_cases waits : screen.waitsFor completion = true
  · have own := (waits_of_waitsFor waits).1
    have shown := picture?_receive waits other.id
    simp only [waitsFor, generation_receive, shown, Completion.place]
    by_cases same : other.id = completion.id
    · by_cases pass : other.generation = screen.generation
      · simp [same, pass, own, isAwaited_ofOutcome]
      · simp [beq_false_of_ne pass]
    · simp [same, Ne.symm same]
  · have stays : (screen.receive completion).1 = screen := by rw [receive_eq, if_neg waits]
    rw [stays]
    by_cases place : completion.place = other.place
    · -- the place did not wait for the one, so it does not for the other
      have alike : screen.waitsFor other = screen.waitsFor completion := by
        obtain ⟨generation, id⟩ := Prod.mk.inj place
        simp [waitsFor, generation, id]
      simp [alike, waits]
    · simp [place]

/-! ## Places and pictures -/

/-- The places of the page have ids, all different, and there is one picture for each, in the same order. -/
structure Orderly (screen : Screen) : Prop where
  named : ∀ id ∈ screen.shownIds, id ≠ ""
  distinct : screen.shownIds.Nodup
  pictured : screen.pictures.map Prod.fst = screen.shownIds

/-- The diagram that waits for a picture of a screen. -/
def awaitedDiagram? : String × Picture → Option NamedDiagram
  | (id, .awaited source) => some ⟨id, source⟩
  | _ => none

theorem keys_setPicture (pictures : List (String × Picture)) (id : String) (picture : Picture) :
    (setPicture pictures id picture).map Prod.fst = pictures.map Prod.fst := by
  rw [setPicture, List.map_map]
  apply List.map_congr_left
  intro entry _
  by_cases same : entry.1 = id <;> simp [same]

/-- A place without an id stays markup. -/
theorem ne_empty_of_mem_split (fuel : Nat) (seen : List String) (markup cs : List Char) :
    ∀ entry ∈ (split fuel seen markup cs).2, entry.1 ≠ "" := by
  fun_induction split fuel seen markup cs with
  | case1 => simp
  | case2 => simp
  | case3 _ _ _ _ _ _ ih => exact ih
  | case4 _ _ _ _ _ _ _ _ _ _ _ ih => exact ih
  | case5 fuel seen markup c rest placeholder after started id isFresh segments pictures split ih =>
    simp only [Bool.or_eq_true, List.isEmpty_iff, not_or] at isFresh
    rw [split] at ih
    intro entry member
    rcases List.mem_cons.mp member with rfl | later
    · intro empty
      have none := congrArg String.toList empty
      rw [String.toList_ofList] at none
      exact isFresh.1 none
    · exact ih entry later

theorem orderly_ofMarkup (generation : Nat) (html : String) : (ofMarkup generation html).Orderly := by
  have matching := ofMarkup_matching generation html
  have ids : (ofMarkup generation html).shownIds = (ofMarkup generation html).pictures.map Prod.fst :=
    shownIds_eq.trans matching.ids
  refine ⟨?_, ids ▸ matching.distinct, ids.symm⟩
  intro id member
  rw [ids] at member
  obtain ⟨entry, listed, rfl⟩ := List.mem_map.mp member
  exact ne_empty_of_mem_split _ _ _ _ entry listed

theorem orderly_empty : Screen.empty.Orderly where
  named _ member := absurd member List.not_mem_nil
  distinct := List.nodup_nil
  pictured := rfl

theorem lookup_eq_some_iff {pictures : List (String × Picture)} (distinct : (pictures.map Prod.fst).Nodup)
    {id : String} {picture : Picture} : pictures.lookup id = some picture ↔ (id, picture) ∈ pictures := by
  induction pictures with
  | nil => simp
  | cons entry rest ih =>
    obtain ⟨first, own⟩ := entry
    rw [List.map_cons, List.nodup_cons] at distinct
    by_cases same : id = first
    · subst same
      have absent : (id, picture) ∉ rest := fun member => distinct.1 (List.mem_map.mpr ⟨_, member, rfl⟩)
      simp [absent, eq_comm]
    · simp [List.lookup_cons, beq_false_of_ne same, ih distinct.2, same]

namespace Orderly

theorem receive (orderly : screen.Orderly) (completion : Completion) : (screen.receive completion).1.Orderly := by
  rw [receive_eq]
  split
  · exact ⟨orderly.named, orderly.distinct, (keys_setPicture _ _ _).trans orderly.pictured⟩
  · exact orderly

theorem picture?_eq_some_iff (orderly : screen.Orderly) {id : String} {picture : Picture} :
    screen.picture? id = some picture ↔ (id, picture) ∈ screen.pictures :=
  lookup_eq_some_iff (orderly.pictured ▸ orderly.distinct)

/-- Every place has its picture. -/
theorem exists_picture (orderly : screen.Orderly) :
    id ∈ screen.shownIds ↔ ∃ picture, screen.picture? id = some picture := by
  simp only [← orderly.pictured, orderly.picture?_eq_some_iff, List.mem_map]
  constructor
  · rintro ⟨entry, member, rfl⟩
    exact ⟨entry.2, member⟩
  · rintro ⟨picture, member⟩
    exact ⟨_, member, rfl⟩

theorem mem_awaitedDiagrams_iff (orderly : screen.Orderly) {node : NamedDiagram} :
    node ∈ screen.awaitedDiagrams ↔ screen.picture? node.id = some (.awaited node.source) := by
  constructor
  · exact mem_awaitedDiagrams
  · intro waits
    have shown := orderly.exists_picture.mpr ⟨_, waits⟩
    exact List.mem_filterMap.mpr ⟨node.id, shown, by simp [waits]⟩

/-- The diagrams that wait are those of the pictures that wait, in the order of the page. -/
theorem awaitedDiagrams_eq (orderly : screen.Orderly) :
    screen.awaitedDiagrams = screen.pictures.filterMap awaitedDiagram? := by
  rw [awaitedDiagrams, ← orderly.pictured, List.filterMap_map]
  apply List.filterMap_congr
  intro entry member
  have shown : screen.picture? entry.1 = some entry.2 := orderly.picture?_eq_some_iff.mpr member
  obtain ⟨id, picture⟩ := entry
  cases picture <;> simp [shown, awaitedDiagram?]

theorem awaitsPictures_iff (orderly : screen.Orderly) :
    screen.awaitsPictures = true ↔ screen.awaitedDiagrams ≠ [] := by
  rw [orderly.awaitedDiagrams_eq, awaitsPictures, List.any_eq_true]
  constructor
  · rintro ⟨⟨id, picture⟩, member, awaited⟩
    cases picture with
    | awaited source => exact List.ne_nil_of_mem (List.mem_filterMap.mpr ⟨_, member, rfl⟩)
    | _ => cases awaited
  · intro some
    obtain ⟨node, member⟩ := List.exists_mem_of_ne_nil _ some
    obtain ⟨⟨id, picture⟩, listed, waits⟩ := List.mem_filterMap.mp member
    cases picture with
    | awaited source => exact ⟨_, listed, rfl⟩
    | _ => cases waits

end Orderly

/-! ## The page around a place -/

/-- The element of a diagram with something inside. -/
def elementWith (id inner : String) : String :=
  "<div class=\"mermaid\" id=\"" ++ Text.escapeAttribute id ++ "\"" ++ inner ++ "</div>"

theorem exists_pictureMarkup (id : String) (picture : Picture) :
    ∃ inner, pictureMarkup id picture = elementWith id inner := by
  have around (start inside tail stop : String) :
      start ++ inside ++ tail ++ stop = start ++ (inside ++ tail) ++ stop := by
    simp only [String.append_assoc]
  cases picture with
  | awaited source => exact ⟨_, around _ _ _ _⟩
  | drawn svg => exact ⟨_, around _ _ _ _⟩
  | failed message => exact ⟨_, around _ _ _ _⟩

/-- A page whose ids are different has a front and a back around each place. -/
theorem segments_split (distinct : screen.shownIds.Nodup) (member : id ∈ screen.shownIds) :
    ∃ front back, screen.segments = front ++ .diagram id :: back ∧
      id ∉ (front ++ back).filterMap Segment.id? := by
  rw [shownIds_eq] at distinct member
  obtain ⟨segment, listed, named⟩ := List.mem_filterMap.mp member
  obtain ⟨front, back, whole⟩ := List.append_of_mem listed
  cases segment with
  | markup text => cases named
  | diagram other =>
    obtain rfl : other = id := Option.some.inj named
    refine ⟨front, back, whole, ?_⟩
    rw [whole, List.filterMap_append, List.filterMap_cons_some named] at distinct
    rw [List.filterMap_append]
    exact (List.nodup_middle.mp distinct).notMem

/-- Screens that differ in one picture show the same page around it. -/
theorem segmentMarkup_congr {later : Screen} {segment : Segment}
    (same : ∀ key, segment.id? = some key → later.picture? key = screen.picture? key) :
    later.segmentMarkup segment = screen.segmentMarkup segment := by
  cases segment with
  | markup text => rfl
  | diagram key => rw [segmentMarkup, segmentMarkup, same key rfl]

/-- A completion that fills its place leaves the page around the element of its diagram as it was. -/
theorem Orderly.markup_receive (orderly : screen.Orderly) {source : String}
    (waits : screen.waitsFor completion = true) (shown : screen.picture? completion.id = some (.awaited source)) :
    ∃ front back,
      screen.markup = front ++ pictureMarkup completion.id (.awaited source) ++ back ∧
      (screen.receive completion).1.markup =
        front ++ pictureMarkup completion.id (.ofOutcome completion.outcome) ++ back := by
  have member : completion.id ∈ screen.shownIds := orderly.exists_picture.mpr ⟨_, shown⟩
  obtain ⟨front, back, whole, absent⟩ := segments_split orderly.distinct member
  have others : ∀ segment ∈ front ++ back,
      (screen.receive completion).1.segmentMarkup segment = screen.segmentMarkup segment := by
    intro segment listed
    apply segmentMarkup_congr
    intro key named
    have apart : key ≠ completion.id := by
      rintro rfl
      exact absent (List.mem_filterMap.mpr ⟨segment, listed, named⟩)
    rw [picture?_receive waits, if_neg apart]
  rw [List.forall_mem_append] at others
  have own : (screen.receive completion).1.picture? completion.id = some (.ofOutcome completion.outcome) := by
    rw [picture?_receive waits, if_pos rfl]
  refine ⟨String.join (front.map screen.segmentMarkup), String.join (back.map screen.segmentMarkup), ?_, ?_⟩
  · simp [markup, whole, segmentMarkup, shown, String.append_assoc]
  · simp [markup, segments_receive, whole, segmentMarkup, own, String.append_assoc,
      List.map_congr_left others.1, List.map_congr_left others.2]

/-- What a completion does that fills its place. -/
structure Fills (screen : Screen) (completion : Completion) : Prop where
  current : completion.generation = screen.generation
  awaited : ∃ source, screen.picture? completion.id = some (.awaited source)
  picture : ∀ id, (screen.receive completion).1.picture? id =
    if id = completion.id then some (.ofOutcome completion.outcome) else screen.picture? id
  generation : (screen.receive completion).1.generation = screen.generation
  segments : (screen.receive completion).1.segments = screen.segments
  /-- The page changes inside the element of the diagram only, which shows the outcome then. -/
  markup : ∃ front inner inner' back,
    screen.markup = front ++ elementWith completion.id inner ++ back ∧
    (screen.receive completion).1.markup = front ++ elementWith completion.id inner' ++ back ∧
    elementWith completion.id inner' = pictureMarkup completion.id (.ofOutcome completion.outcome)

theorem Orderly.fills (orderly : screen.Orderly) (waits : screen.waitsFor completion = true) :
    screen.Fills completion := by
  obtain ⟨own, source, shown⟩ := waits_of_waitsFor waits
  obtain ⟨front, back, before, later⟩ := orderly.markup_receive waits shown
  obtain ⟨inner, element⟩ := exists_pictureMarkup completion.id (.awaited source)
  obtain ⟨inner', element'⟩ := exists_pictureMarkup completion.id (.ofOutcome completion.outcome)
  refine ⟨own, ⟨source, shown⟩, picture?_receive waits, generation_receive, segments_receive, ?_⟩
  exact ⟨front, inner, inner', back, element ▸ before, element' ▸ later, element'.symm⟩

/-! ## Completions one after the other -/

/-- What a picture becomes with some completions. -/
def decided (screen : Screen) (completions : List Completion) (id : String) (old : Picture) : Picture :=
  match firstOutcome? screen.generation id completions with
  | some outcome => if (screen.picture? id).any Picture.isAwaited then .ofOutcome outcome else old
  | none => old

theorem firstOutcome?_cons (generation : Nat) (id : String) (completion : Completion)
    (rest : List Completion) :
    firstOutcome? generation id (completion :: rest) =
      if completion.place = (generation, id) then some completion.outcome
      else firstOutcome? generation id rest := by
  by_cases place : completion.place = (generation, id) <;> simp [firstOutcome?, place]

/-- A picture that is there does not change. -/
theorem decided_of_filled (filled : (screen.picture? id).any Picture.isAwaited = false)
    (completions : List Completion) (old : Picture) : screen.decided completions id old = old := by
  unfold decided
  split <;> simp [filled]

/-- One completion decides the picture of its own place, and the others are left to those behind it. -/
theorem decided_cons_of_waits (waits : screen.waitsFor completion = true) (rest : List Completion)
    (id : String) (old : Picture) :
    screen.decided (completion :: rest) id old =
      (screen.receive completion).1.decided rest id
        (if id = completion.id then .ofOutcome completion.outcome else old) := by
  obtain ⟨own, source, shown⟩ := waits_of_waitsFor waits
  by_cases same : id = completion.id
  · have place : completion.place = (screen.generation, id) := Prod.ext own same.symm
    have filled : (screen.receive completion).1.picture? id = some (.ofOutcome completion.outcome) := by
      rw [picture?_receive waits, if_pos same]
    -- whatever comes behind, the picture is there
    have filled' : ((screen.receive completion).1.picture? id).any Picture.isAwaited = false := by
      simp [filled, isAwaited_ofOutcome]
    rw [if_pos same, decided_of_filled filled']
    subst same
    simp [decided, firstOutcome?_cons, place, shown, Picture.isAwaited]
  · have apart : ¬ completion.place = (screen.generation, id) := fun place =>
      same (Prod.mk.inj place).2.symm
    have shownBefore : (screen.receive completion).1.picture? id = screen.picture? id := by
      rw [picture?_receive waits, if_neg same]
    simp [decided, firstOutcome?_cons, apart, same, shownBefore, generation_receive]

theorem decided_cons_of_not_waits (waits : ¬ screen.waitsFor completion = true) (rest : List Completion)
    (id : String) (old : Picture) :
    screen.decided (completion :: rest) id old = screen.decided rest id old := by
  by_cases place : completion.place = (screen.generation, id)
  · obtain ⟨own, same⟩ := Prod.mk.inj place
    have filled : (screen.picture? id).any Picture.isAwaited = false := by
      rw [← Bool.not_eq_true]
      intro awaited
      exact waits (by simp [waitsFor, own, same, awaited])
    rw [decided_of_filled filled, decided_of_filled filled]
  · simp [decided, firstOutcome?_cons, place]

/-- Completions only fill places: each place that waits gets the first outcome that is for it. -/
theorem receiveAll_fst (screen : Screen) (completions : List Completion) :
    (screen.receiveAll completions).1 =
      { screen with
        pictures := screen.pictures.map fun entry =>
          (entry.1, screen.decided completions entry.1 entry.2) } := by
  induction completions generalizing screen with
  | nil => simp [receiveAll, decided, firstOutcome?]
  | cons completion rest ih =>
    show ((screen.receive completion).1.receiveAll rest).1 = _
    rw [ih]
    by_cases waits : screen.waitsFor completion = true
    · have pictures : (screen.receive completion).1.pictures =
          setPicture screen.pictures completion.id (.ofOutcome completion.outcome) := by
        rw [receive_eq, if_pos waits]
      simp only [generation_receive, segments_receive, decided_cons_of_waits waits, pictures, setPicture,
        List.map_map]
      congr 1
      apply List.map_congr_left
      intro entry _
      by_cases same : entry.1 = completion.id <;> simp [same]
    · simp only [decided_cons_of_not_waits waits, receive_eq, if_neg waits]

theorem lookup_map_value (pictures : List (String × Picture)) (f : String → Picture → Picture) (key : String) :
    (pictures.map fun entry => (entry.1, f entry.1 entry.2)).lookup key = (pictures.lookup key).map (f key) := by
  induction pictures with
  | nil => rfl
  | cons entry rest ih =>
    obtain ⟨first, picture⟩ := entry
    by_cases same : key = first
    · simp [same]
    · simp [List.lookup_cons, beq_false_of_ne same, ih]

theorem picture?_receiveAll (screen : Screen) (completions : List Completion) (id : String) :
    (screen.receiveAll completions).1.picture? id =
      (screen.picture? id).map (screen.decided completions id) := by
  rw [receiveAll_fst]
  exact lookup_map_value _ _ id

/-- A completion is applied if its place waits for it and no earlier one was for the same place. -/
theorem getElem?_receiveAll_snd {index : Nat} (found : completions[index]? = some completion) :
    (screen.receiveAll completions).2[index]? =
      some (if screen.waitsFor completion &&
          (completions.take index).all fun earlier => decide (earlier.place ≠ completion.place)
        then .applied else .stale) := by
  induction completions generalizing screen index with
  | nil => simp at found
  | cons first rest ih =>
    cases index with
    | zero =>
      obtain rfl : first = completion := by simpa using found
      show some (screen.receive first).2 = _
      simp [receive_snd]
    | succ index =>
      show ((screen.receive first).1.receiveAll rest).2[index]? = _
      rw [ih (by simpa using found), waitsFor_receive, List.take_succ_cons, List.all_cons, Bool.and_assoc]

theorem receiveAll_snd_of_distinct (distinct : (completions.map Completion.place).Nodup) :
    (screen.receiveAll completions).2 = completions.map fun completion => (screen.receive completion).2 := by
  induction completions generalizing screen with
  | nil => rfl
  | cons first rest ih =>
    rw [List.map_cons, List.nodup_cons] at distinct
    show (screen.receive first).2 :: ((screen.receive first).1.receiveAll rest).2 = _
    rw [ih distinct.2, List.map_cons]
    congr 1
    apply List.map_congr_left
    intro later member
    have apart : first.place ≠ later.place := fun same =>
      distinct.1 (List.mem_map.mpr ⟨later, member, same.symm⟩)
    rw [receive_snd, receive_snd, waitsFor_receive, decide_eq_true apart, Bool.and_true]

/-- Which completion comes first for a place does not depend on the order if only one is for it. -/
theorem firstOutcome?_perm (reordered : completions.Perm completions')
    (distinct : (completions.map Completion.place).Nodup) (generation : Nat) (id : String) :
    firstOutcome? generation id completions = firstOutcome? generation id completions' := by
  induction reordered with
  | nil => rfl
  | cons first _ ih =>
    rw [List.map_cons, List.nodup_cons] at distinct
    rw [firstOutcome?_cons, firstOutcome?_cons, ih distinct.2]
  | swap first second rest =>
    simp only [List.map_cons, List.nodup_cons, List.mem_cons, not_or] at distinct
    have apart : second.place ≠ first.place := distinct.1.1
    simp only [firstOutcome?_cons]
    by_cases own : first.place = (generation, id)
    · simp [own, own ▸ apart]
    · simp [own]
  | trans first _ ih ih' =>
    rw [ih distinct, ih' ((first.map _).nodup_iff.mp distinct)]

/-- Only the first completion for each place of the page counts. -/
theorem receiveAll_congr
    (first : ∀ id, firstOutcome? screen.generation id completions =
      firstOutcome? screen.generation id completions') :
    (screen.receiveAll completions).1 = (screen.receiveAll completions').1 := by
  simp only [receiveAll_fst, decided, first]

/-! ## Screens from the beginning -/

theorem orderly_after (changes : List Change) : (after changes).Orderly := by
  induction changes using List.reverseRecOn with
  | nil => exact orderly_empty
  | append_singleton changes change ih =>
    rw [after, List.foldl_append]
    cases change with
    | page generation html => exact orderly_ofMarkup generation html
    | completion completion => exact ih.receive completion

theorem generation_after (changes : List Change) : (after changes).generation = lastGeneration changes := by
  induction changes using List.reverseRecOn with
  | nil => rfl
  | append_singleton changes change ih =>
    rw [after, lastGeneration, List.foldl_append, List.foldl_append]
    cases change with
    | page generation html => rfl
    | completion completion => exact generation_receive.trans ih

theorem foldl_completions (screen : Screen) (completions : List Completion) :
    (completions.map Change.completion).foldl change screen = (screen.receiveAll completions).1 := by
  induction completions generalizing screen with
  | nil => rfl
  | cons completion rest ih => exact ih (screen.receive completion).1

/-- A page forgets all that was before. -/
theorem after_page (changes : List Change) (generation : Nat) (html : String) (completions : List Completion) :
    after (changes ++ .page generation html :: completions.map .completion) =
      ((ofMarkup generation html).receiveAll completions).1 := by
  rw [after, List.foldl_append, List.foldl_cons, foldl_completions]
  rfl

theorem isAwaited_of_ofMarkup {generation : Nat} {html : String} {picture : Picture}
    (shown : (ofMarkup generation html).picture? id = some picture) : picture.isAwaited = true :=
  (ofMarkup_matching generation html).awaited _
    ((orderly_ofMarkup generation html).picture?_eq_some_iff.mp shown)

/-- Since its page came a place waits, or it shows the first outcome that came for it. -/
theorem picture?_after_page (changes : List Change) (generation : Nat) (html : String)
    (completions : List Completion) (id : String) :
    (after (changes ++ .page generation html :: completions.map .completion)).picture? id =
      ((ofMarkup generation html).picture? id).map fun picture =>
        (firstOutcome? generation id completions).elim picture .ofOutcome := by
  rw [after_page, picture?_receiveAll]
  apply Option.map_congr
  intro picture shown
  have awaited := isAwaited_of_ofMarkup shown
  rw [decided, generation_ofMarkup, shown]
  cases firstOutcome? generation id completions <;> simp [awaited]

/-- After any changes the places of the page have different ids and all have their pictures, and the screen
    belongs to the page that came last. Since then each place waits until the first outcome that is for it, and
    does not change again. A completion that is not applied leaves the screen as it was, and one that is applied
    fills its own place only. -/
theorem each_place_is_filled_once (changes : List Change) :
    let screen := after changes
    screen.Orderly ∧
    (∀ id ∈ screen.shownIds, ∃ picture, screen.picture? id = some picture ∧
      screen.segmentMarkup (.diagram id) = pictureMarkup id picture) ∧
    screen.generation = lastGeneration changes ∧
    (screen.awaitsPictures = true ↔ screen.awaitedDiagrams ≠ []) ∧
    screen.awaitedDiagrams = screen.pictures.filterMap awaitedDiagram? ∧
    (∀ generation html completions id,
      ((after (changes ++ .page generation html :: completions.map .completion)).picture? id =
        ((ofMarkup generation html).picture? id).map fun picture =>
          (firstOutcome? generation id completions).elim picture .ofOutcome) ∧
      ∀ picture, (ofMarkup generation html).picture? id = some picture → picture.isAwaited = true) ∧
    ∀ completion,
      ((screen.receive completion).2 = .stale → (screen.receive completion).1 = screen) ∧
      ((screen.receive completion).2 = .applied → screen.Fills completion) := by
  intro screen
  have orderly : screen.Orderly := orderly_after changes
  refine ⟨orderly, ?_, generation_after changes, orderly.awaitsPictures_iff, orderly.awaitedDiagrams_eq, ?_, ?_⟩
  · intro id member
    obtain ⟨picture, shown⟩ := orderly.exists_picture.mp member
    exact ⟨picture, shown, by rw [segmentMarkup, shown, Option.elim_some]⟩
  · intro generation html completions id
    exact ⟨picture?_after_page changes generation html completions id, fun _ => isAwaited_of_ofMarkup⟩
  · intro completion
    rw [receive_snd]
    by_cases waits : screen.waitsFor completion = true
    · exact ⟨fun stale => by simp [waits] at stale, fun _ => orderly.fills waits⟩
    · refine ⟨fun _ => ?_, fun applied => by simp [waits] at applied⟩
      rw [receive_eq, if_neg waits]

/-- The second outcome for a diagram is not shown, and neither is one of an earlier pass. -/
theorem second_outcome_is_stale :
    let screen := after [
      .page 2 "<div class=\"mermaid\" id=\"m\">old</div>",
      .page 3 "<p>a</p><div class=\"mermaid\" id=\"m\">new</div>",
      .completion ⟨2, "m", .ok "late"⟩, .completion ⟨3, "m", .ok "first"⟩]
    screen.Orderly ∧ screen.picture? "m" = some (.drawn "first") ∧
      (screen.receive ⟨3, "m", .ok "second"⟩).1 = screen := by
  intro screen
  obtain ⟨orderly, -, -, -, -, -, received⟩ := each_place_is_filled_once [
    .page 2 "<div class=\"mermaid\" id=\"m\">old</div>",
    .page 3 "<p>a</p><div class=\"mermaid\" id=\"m\">new</div>",
    .completion ⟨2, "m", .ok "late"⟩, .completion ⟨3, "m", .ok "first"⟩]
  exact ⟨orderly, by decide +kernel, (received ⟨3, "m", .ok "second"⟩).1 (by decide +kernel)⟩

/-! ## Orders of completions -/

/-- Completions for different places may come in any order: the screen is the same in the end, and each of them
    is received as if it had come alone. Of several completions for one place of the page the first one counts,
    and the screen depends on nothing else; each is applied exactly if its place waits and no earlier one was
    for it. -/
theorem completions_in_any_order (screen : Screen) {completions completions' : List Completion} :
    (completions.Perm completions' → (completions.map Completion.place).Nodup →
      (screen.receiveAll completions).1 = (screen.receiveAll completions').1 ∧
      (screen.receiveAll completions).2 = completions.map (fun completion => (screen.receive completion).2) ∧
      (screen.receiveAll completions').2 = completions'.map fun completion => (screen.receive completion).2) ∧
    ((∀ id, firstOutcome? screen.generation id completions = firstOutcome? screen.generation id completions') →
      (screen.receiveAll completions).1 = (screen.receiveAll completions').1) ∧
    ∀ index completion, completions[index]? = some completion →
      (screen.receiveAll completions).2[index]? =
        some (if screen.waitsFor completion &&
            (completions.take index).all fun earlier => decide (earlier.place ≠ completion.place)
          then .applied else .stale) := by
  refine ⟨?_, receiveAll_congr, fun index completion found => getElem?_receiveAll_snd found⟩
  intro reordered distinct
  have distinct' : (completions'.map Completion.place).Nodup := (reordered.map _).nodup_iff.mp distinct
  refine ⟨?_, receiveAll_snd_of_distinct distinct, receiveAll_snd_of_distinct distinct'⟩
  apply receiveAll_congr
  exact firstOutcome?_perm reordered distinct screen.generation

/-- Two pictures and one of an earlier pass come in one order and in the opposite one. -/
theorem three_completions_reversed :
    let screen := ofMarkup 2 "<div class=\"mermaid\" id=\"a\">x</div><div class=\"mermaid\" id=\"b\">y</div>"
    let completions : List Completion := [⟨2, "a", .ok "one"⟩, ⟨1, "b", .ok "late"⟩, ⟨2, "b", .ok "two"⟩]
    (completions.map Completion.place).Nodup ∧
      (screen.receiveAll completions).1 = (screen.receiveAll completions.reverse).1 ∧
      (screen.receiveAll completions).2 = [.applied, .stale, .applied] := by
  intro screen completions
  have distinct : (completions.map Completion.place).Nodup := by decide +kernel
  obtain ⟨reordered, -, -⟩ := @completions_in_any_order screen completions completions.reverse
  obtain ⟨same, settlements, -⟩ := reordered (List.reverse_perm completions).symm distinct
  exact ⟨distinct, same, settlements.trans (by decide +kernel)⟩

end Screen

end Galley
