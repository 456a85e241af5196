import Galley.Proofs.Session.Completions
import Galley.Proofs.Session.Runs

/-!
# What is typeset in a session

A pass asks for the pictures of the diagrams on its page. Its tasks may begin late, end in any order, end
with an error or end after the next pass was shown. None of this loses a picture or asks for one twice.

* `shownPasses`, `Pass.firstScreen` — the passes of a session, and the page of a pass before any outcome;
* `Supplied` — how the tasks that wait and the calls belong to the passes;
* `notified_of_run` — how often the listener is called;
* `progress_eq_awaitingPictures_iff`, `picture?_of_finished` — how far the latest pass has come;
* `each_diagram_is_typeset_once` — all of it for every run.
-/

namespace Galley

open Galley.Diagram (NamedDiagram PictureError Theme)

/-- The page of a pass as it was before any outcome came. -/
def Pass.firstScreen (pass : Pass) : Screen := .ofMarkup pass.generation pass.page.html

namespace EditSession

variable {session next : EditSession} {history : List Notice} {context : PageContext}

/-- The pass that was shown. -/
def Notice.pass? : Notice → Option Pass
  | .shown pass => some pass
  | _ => none

/-- The passes that were shown, the latest first. -/
def shownPasses (history : List Notice) : List Pass := history.filterMap Notice.pass?

/-- Whether an action is an edit. -/
def Action.isEdit : Action → Bool
  | .edit _ => true
  | _ => false

/-- Whether an action brings an outcome that is put in its place. -/
def applies (session : EditSession) : Action → Bool
  | .finish index outcome =>
    session.calls[index]?.any fun call =>
      (session.screen.settle call.task.generation call.task.node.id outcome).2 = .applied
  | _ => false

/-- How many outcomes are put in their places in a run. -/
def appliedCount (session : EditSession) : List Action → Nat
  | [] => 0
  | action :: actions =>
    match session.perform? action with
    | some (next, _) => (session.applies action).toNat + next.appliedCount actions
    | none => 0

theorem latestPass?_eq_head? (history : List Notice) : latestPass? history = (shownPasses history).head? := by
  induction history with
  | nil => rfl
  | cons notice earlier ih =>
    cases notice with
    | shown pass => rfl
    | began task => exact ih
    | ended task outcome => exact ih

theorem mem_latestTasks {task : Task} :
    task ∈ latestTasks history ↔ ∃ pass, latestPass? history = some pass ∧ task ∈ pass.tasks := by
  cases latest : latestPass? history <;> simp [latestTasks, latest]

/-! ## Calls of the listener -/

theorem notified_of_perform {action : Action} {notice : Notice}
    (performed : session.perform? action = some (next, notice)) :
    next.notified = session.notified + action.isEdit.toNat + (session.applies action).toNat := by
  rcases perform_cases performed with ⟨source, pass, rfl, edited, -⟩ | ⟨index, task, rfl, -, begun, -⟩ |
    ⟨index, outcome, call, rfl, found, finished, -⟩
  · obtain ⟨-, -, -, -, -, notified, -⟩ := edit_spec edited
    exact notified
  · obtain ⟨-, -, rfl⟩ := begin_spec begun
    rfl
  · obtain ⟨call', found', -, rfl⟩ := finish_spec finished
    obtain rfl : call = call' := Option.some.inj (found.symm.trans found')
    by_cases applied :
        (session.screen.settle call.task.generation call.task.node.id outcome).2 = .applied
    · simp [applies, Action.isEdit, found, applied]
    · simp [applies, Action.isEdit, found, applied]

/-- The listener is called once for each edit, and once for each outcome that is put in its place. -/
theorem notified_of_run {actions : List Action} {session' : EditSession} {history' : List Notice}
    (ran : session.run? history actions = some (session', history')) :
    session'.notified = session.notified + actions.countP Action.isEdit + session.appliedCount actions := by
  induction actions generalizing session history with
  | nil =>
    cases ran
    rfl
  | cons action actions ih =>
    rw [run?] at ran
    split at ran
    next next notice performed =>
      rw [ih ran, notified_of_perform performed, List.countP_cons, appliedCount, performed]
      cases action.isEdit <;> simp <;> omega
    next => cases ran

/-! ## What is asked for -/

/-- How the tasks of a session belong to its passes. -/
structure Supplied (context : PageContext) (history : List Notice) (session : EditSession) : Prop where
  typesets : session.typesets = true
  kept : session.maker.context = context
  /-- A pass asks for the diagrams that wait when its page comes. -/
  due : ∀ pass ∈ shownPasses history,
    pass.tasks = tasksOf pass.firstScreen (Theme.ofDarkMode context.options.darkMode)
  numbered : (shownPasses history).map Pass.generation = (List.range' 1 session.generation).reverse
  /-- A task has begun or waits, and it does so once. -/
  issued : (session.queue ++ session.calls.map Call.task).Perm ((shownPasses history).flatMap Pass.tasks)
  answered : ∀ call ∈ session.calls, call.isAnswered = true →
    ∃ outcome, .ended call.task outcome ∈ history

theorem supplied_ofContext (context : PageContext) : Supplied context [] (ofContext context true) where
  typesets := rfl
  kept := rfl
  due _ member := absurd member List.not_mem_nil
  numbered := rfl
  issued := List.Perm.nil
  answered _ member := absurd member List.not_mem_nil

theorem context_of_make {maker later : PageMaker} {source : String} {page : Page}
    (made : maker.make source = .ok (page, later)) : later.context = maker.context := by
  simp only [PageMaker.make, bind, Except.bind] at made
  split at made
  next => cases made
  next =>
    cases made
    rfl

theorem due_of_edit {source : String} {pass : Pass} (edited : session.edit source = .ok (pass, next)) :
    next.typesets = session.typesets ∧ next.maker.context = session.maker.context ∧
      (session.typesets = true →
        pass.tasks = tasksOf pass.firstScreen (Theme.ofDarkMode session.maker.context.options.darkMode)) := by
  unfold edit at edited
  cases made : session.maker.make source with
  | error _ =>
    rw [made] at edited
    cases edited
  | ok result =>
    obtain ⟨page, maker⟩ := result
    rw [made] at edited
    cases edited
    have same := context_of_make made
    refine ⟨rfl, same, fun typesets => ?_⟩
    rw [← same]
    exact if_pos typesets

/-- An answer changes a call, but not its task. -/
theorem tasks_of_answered {calls : List Call} {index : Nat} {call : Call}
    (found : calls[index]? = some call) :
    (calls.set index { call with isAnswered := true }).map Call.task = calls.map Call.task := by
  obtain ⟨bound, rfl⟩ := List.getElem?_eq_some_iff.mp found
  apply List.ext_getElem?
  intro place
  rw [List.getElem?_map, List.getElem?_map, List.getElem?_set]
  by_cases here : index = place
  · subst here
    simp [bound]
  · simp [here]

namespace Supplied

theorem edit {source : String} {pass : Pass} (supplied : Supplied context history session)
    (edited : session.edit source = .ok (pass, next)) : Supplied context (.shown pass :: history) next := by
  obtain ⟨number, generation, -, queue, calls, -, -⟩ := edit_spec edited
  obtain ⟨typesets, same, due⟩ := due_of_edit edited
  have passes : shownPasses (.shown pass :: history) = pass :: shownPasses history := rfl
  refine ⟨typesets.trans supplied.typesets, same.trans supplied.kept, ?_, ?_, ?_, ?_⟩
  · intro shown member
    rw [passes] at member
    rcases List.mem_cons.mp member with rfl | before
    · rw [due supplied.typesets, supplied.kept]
    · exact supplied.due shown before
  · rw [passes, List.map_cons, supplied.numbered, number, generation, List.range'_1_concat,
      List.reverse_append, Nat.add_comm]
    rfl
  · -- the tasks of the pass go behind the queue, which stands in front of the calls
    rw [passes, List.flatMap_cons, queue, calls]
    apply (List.perm_append_comm.append_right _).trans
    rw [List.append_assoc]
    exact supplied.issued.append_left _
  · intro call member isAnswered
    rw [calls] at member
    obtain ⟨outcome, ended⟩ := supplied.answered call member isAnswered
    exact ⟨outcome, List.mem_cons_of_mem _ ended⟩

theorem begin {index : Nat} {task : Task} (supplied : Supplied context history session)
    (begun : session.begin? index = some next) : Supplied context (.began task :: history) next := by
  obtain ⟨task, waiting, rfl⟩ := begin_spec begun
  obtain ⟨bound, rfl⟩ := List.getElem?_eq_some_iff.mp waiting
  refine ⟨supplied.typesets, supplied.kept, supplied.due, supplied.numbered, ?_, ?_⟩
  · apply List.Perm.trans _ supplied.issued
    rw [List.map_append, ← List.append_assoc]
    apply (List.perm_append_singleton _ _).trans
    exact (List.getElem_cons_eraseIdx_perm bound).append_right _
  · intro call member isAnswered
    rcases List.mem_append.mp member with before | new
    · obtain ⟨outcome, ended⟩ := supplied.answered call before isAnswered
      exact ⟨outcome, List.mem_cons_of_mem _ ended⟩
    · obtain rfl := List.mem_singleton.mp new
      cases isAnswered

theorem finish {index : Nat} {outcome : Except PictureError String} {call : Call}
    (supplied : Supplied context history session) (found : session.calls[index]? = some call)
    (finished : session.finish? index outcome = some next) :
    Supplied context (.ended call.task outcome :: history) next := by
  obtain ⟨call', found', -, rfl⟩ := finish_spec finished
  obtain rfl : call = call' := Option.some.inj (found.symm.trans found')
  refine ⟨supplied.typesets, supplied.kept, supplied.due, supplied.numbered, ?_, ?_⟩
  · rw [tasks_of_answered found]
    exact supplied.issued
  · intro other member isAnswered
    rcases List.mem_or_eq_of_mem_set member with before | rfl
    · obtain ⟨outcome, ended⟩ := supplied.answered other before isAnswered
      exact ⟨outcome, List.mem_cons_of_mem _ ended⟩
    · exact ⟨outcome, List.mem_cons_self⟩

theorem perform {action : Action} {notice : Notice} (supplied : Supplied context history session)
    (performed : session.perform? action = some (next, notice)) :
    Supplied context (notice :: history) next := by
  rcases perform_cases performed with ⟨_, _, _, edited, rfl⟩ | ⟨_, _, _, -, begun, rfl⟩ |
    ⟨_, _, _, _, found, finished, rfl⟩
  · exact supplied.edit edited
  · exact supplied.begin begun
  · exact supplied.finish found finished

theorem run {actions : List Action} {session' : EditSession} {history' : List Notice}
    (supplied : Supplied context history session)
    (ran : session.run? history actions = some (session', history')) :
    Supplied context history' session' :=
  run_invariant (fun supplied performed => supplied.perform performed) supplied ran

/-- No two tasks of a session have the same pass and the same id. -/
theorem nodup_places (supplied : Supplied context history session) :
    ((session.queue ++ session.calls.map Call.task).map fun task => (task.generation, task.node.id)).Nodup := by
  refine (supplied.issued.map _).nodup_iff.mpr ?_
  rw [List.map_flatMap, List.nodup_flatMap]
  have ofPass : ∀ pass ∈ shownPasses history, ∀ task ∈ pass.tasks, task.generation = pass.generation := by
    intro pass member task listed
    rw [supplied.due pass member] at listed
    obtain ⟨node, -, rfl⟩ := List.mem_map.mp listed
    rfl
  constructor
  · intro pass member
    -- in one pass the ids are different
    rw [supplied.due pass member, tasksOf, List.map_map]
    have ids := Screen.nodup_awaitedDiagrams_ofMarkup pass.generation pass.page.html
    exact (List.pairwise_map.mp ids).map _ fun _ _ apart same => apart (Prod.mk.inj same).2
  · -- two passes have different numbers
    have numbers : ((shownPasses history).map Pass.generation).Nodup := by
      rw [supplied.numbered, List.nodup_reverse]
      exact List.nodup_range'
    apply (List.pairwise_map.mp numbers).imp_of_mem
    intro pass pass' member member' apart key listed listed'
    obtain ⟨task, own, rfl⟩ := List.mem_map.mp listed
    obtain ⟨task', own', same⟩ := List.mem_map.mp listed'
    apply apart
    rw [← ofPass pass member task own, ← ofPass pass' member' task' own']
    exact (Prod.mk.inj same).1.symm

end Supplied

/-! ## How far the latest pass has come -/

theorem keys_withOutcomes (own : List Task) (pictures : List (String × Picture)) (history : List Notice) :
    (withOutcomes own pictures history).map Prod.fst = pictures.map Prod.fst := by
  induction history with
  | nil => rfl
  | cons notice earlier ih =>
    cases notice with
    | shown pass => exact ih
    | began task => exact ih
    | ended task outcome =>
      rw [withOutcomes]
      split
      · exact (Screen.keys_setPicture _ _ _).trans ih
      · exact ih

theorem orderly_replayed (history : List Notice) : (replayed history).Orderly := by
  unfold replayed
  split
  · exact Screen.orderly_empty
  next pass _ =>
    have orderly := Screen.orderly_ofMarkup pass.generation pass.page.html
    exact ⟨orderly.named, orderly.distinct, (keys_withOutcomes _ _ _).trans orderly.pictured⟩

theorem progress_eq_ite (typesets : session.typesets = true) :
    session.progress = if session.screen.awaitsPictures then .awaitingPictures else .idle := by
  rw [progress, typesets, Bool.true_and]

namespace Supplied

theorem tasks_of_latest (supplied : Supplied context history session) {pass : Pass}
    (latest : latestPass? history = some pass) :
    pass ∈ shownPasses history ∧
      pass.tasks = tasksOf pass.firstScreen (Theme.ofDarkMode context.options.darkMode) := by
  have member : pass ∈ shownPasses history := List.mem_of_head? ((latestPass?_eq_head? history).symm.trans latest)
  exact ⟨member, supplied.due pass member⟩

/-- Each place on the screen is that of a task of the latest pass. -/
theorem exists_task (supplied : Supplied context history session) (consistent : Consistent history session)
    {id : String} (shown : id ∈ session.screen.shownIds) :
    ∃ task ∈ latestTasks history, task.node.id = id := by
  rw [consistent.screen] at shown
  cases latest : latestPass? history with
  | none => simp [replayed, latest, Screen.shownIds, Screen.empty] at shown
  | some pass =>
    -- outcomes change pictures only, so the place is on the page from its beginning, and it waits there
    have atFirst : id ∈ pass.firstScreen.shownIds := by
      simp only [replayed, latest] at shown
      exact shown
    have orderly : pass.firstScreen.Orderly := Screen.orderly_ofMarkup pass.generation pass.page.html
    obtain ⟨picture, found⟩ := orderly.exists_picture.mp atFirst
    have awaited : picture.isAwaited = true := Screen.isAwaited_of_ofMarkup found
    cases picture with
    | drawn svg => cases awaited
    | failed message => cases awaited
    | awaited source =>
      have due : ⟨id, source⟩ ∈ pass.firstScreen.awaitedDiagrams := orderly.mem_awaitedDiagrams_iff.mpr found
      have asked : ∃ task ∈ pass.tasks, task.node.id = id := by
        rw [(supplied.tasks_of_latest latest).2]
        exact ⟨_, List.mem_map_of_mem due, rfl⟩
      obtain ⟨task, member, same⟩ := asked
      exact ⟨task, mem_latestTasks.mpr ⟨pass, latest, member⟩, same⟩

theorem inFlight_or_ended (supplied : Supplied context history session) {task : Task}
    (own : task ∈ latestTasks history) :
    task ∈ session.inFlight ∨ ∃ outcome, .ended task outcome ∈ history := by
  obtain ⟨pass, latest, member⟩ := mem_latestTasks.mp own
  have asked : task ∈ (shownPasses history).flatMap Pass.tasks :=
    List.mem_flatMap.mpr ⟨pass, (supplied.tasks_of_latest latest).1, member⟩
  rcases List.mem_append.mp (supplied.issued.mem_iff.mpr asked) with waits | called
  · exact Or.inl (List.mem_append_left _ waits)
  · obtain ⟨call, listed, rfl⟩ := List.mem_map.mp called
    by_cases isAnswered : call.isAnswered = true
    · exact Or.inr (supplied.answered call listed isAnswered)
    · apply Or.inl
      apply List.mem_append_right
      exact List.mem_map_of_mem (List.mem_filter.mpr ⟨listed, by simp [isAnswered]⟩)

theorem progress_eq_awaitingPictures_iff (supplied : Supplied context history session)
    (consistent : Consistent history session) :
    session.progress = .awaitingPictures ↔
      ∃ task ∈ latestTasks history, ∀ outcome, .ended task outcome ∉ history := by
  have orderly : session.screen.Orderly := consistent.screen ▸ orderly_replayed history
  have awaits : session.progress = .awaitingPictures ↔ session.screen.awaitedDiagrams ≠ [] := by
    rw [progress_eq_ite supplied.typesets, ← orderly.awaitsPictures_iff]
    by_cases awaited : session.screen.awaitsPictures = true <;> simp [awaited]
  rw [awaits]
  constructor
  · intro some
    obtain ⟨node, member⟩ := List.exists_mem_of_ne_nil _ some
    have waits := Screen.mem_awaitedDiagrams member
    obtain ⟨task, own, same⟩ := supplied.exists_task consistent (orderly.exists_picture.mpr ⟨_, waits⟩)
    refine ⟨task, own, fun outcome ended => ?_⟩
    -- with its outcome the place would not wait
    have settled := consistent.settled task outcome ended own
    rw [same, waits] at settled
    cases outcome <;> cases settled
  · rintro ⟨task, own, unfinished⟩
    rcases supplied.inFlight_or_ended own with flying | ⟨outcome, ended⟩
    · obtain ⟨source, waits⟩ := consistent.awaited task flying own
      have member : ⟨task.node.id, source⟩ ∈ session.screen.awaitedDiagrams :=
        orderly.mem_awaitedDiagrams_iff.mpr waits
      exact List.ne_nil_of_mem member
    · exact absurd ended (unfinished outcome)

/-- When all tasks of the latest pass have ended, each place shows the outcome of its own task. -/
theorem picture?_of_finished (supplied : Supplied context history session)
    (consistent : Consistent history session)
    (finished : ∀ task ∈ latestTasks history, ∃ outcome, .ended task outcome ∈ history) {id : String}
    (shown : id ∈ session.screen.shownIds) :
    ∃ task ∈ latestTasks history, ∃ outcome, task.node.id = id ∧ .ended task outcome ∈ history ∧
      session.screen.picture? id = some (.ofOutcome outcome) := by
  obtain ⟨task, own, rfl⟩ := supplied.exists_task consistent shown
  obtain ⟨outcome, ended⟩ := finished task own
  exact ⟨task, own, outcome, rfl, ended, consistent.settled task outcome ended own⟩

end Supplied

/-! ## Outcomes of the latest pass -/

/-- The outcome of a call of the latest pass comes to its place, and the listener hears of it. -/
theorem Consistent.finish_current {index : Nat} {call : Call} (consistent : Consistent history session)
    (found : session.calls[index]? = some call) (unanswered : call.isAnswered = false)
    (current : call.task.generation = session.generation) (outcome : Except PictureError String) :
    (session.screen.settle call.task.generation call.task.node.id outcome).2 = .applied ∧
    ∃ next, session.finish? index outcome = some next ∧
      next.screen.picture? call.task.node.id = some (.ofOutcome outcome) ∧
      next.notified = session.notified + 1 := by
  have flying := mem_inFlight found unanswered
  have own : call.task ∈ latestTasks history := by
    apply (consistent.owned _ flying).resolve_right
    omega
  have settled := consistent.settle_own found unanswered own outcome
  have finished : ∃ next, session.finish? index outcome = some next := by
    simp [finish?, found, unanswered, settled]
  obtain ⟨next, finished⟩ := finished
  refine ⟨by rw [settled], next, finished, ?_, ?_⟩
  · exact (consistent.finish found finished).settled _ outcome List.mem_cons_self own
  · have after := (consistent.finish found finished).notified
    rw [after, notifications, if_pos own, consistent.notified]

end EditSession

end Galley
