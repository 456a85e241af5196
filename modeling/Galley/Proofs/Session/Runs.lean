import Galley.EditSession
import Galley.Proofs.Session.Screen

/-!
# Runs of a session

Edits, starts of tasks and outcomes come in any order. Whatever the order, the reader sees the page of the
latest pass with the outcomes of that pass alone, as if nothing had ever been typeset for an earlier one.

* `Action`, `perform?` — what can happen to a session, and `Notice`, how it is remembered;
* `run?` — actions one after the other, with all that is remembered of them;
* `replayed` — what the reader sees by right, from the memory alone;
* `Consistent` — how the tasks in flight and the screen belong together;
* `screen_eq_replayed` — the session shows what the reader sees by right.
-/

namespace Galley.EditSession

open Galley.Diagram (NamedDiagram PictureError)

/-! ## Actions -/

/-- What can happen to a session. -/
inductive Action where
  /-- The document is edited. -/
  | edit (source : String)
  /-- The task at a place of the queue begins. -/
  | begin (index : Nat)
  /-- A call has its outcome. -/
  | finish (index : Nat) (outcome : Except PictureError String)

/-- What is remembered of an action. -/
inductive Notice where
  /-- A pass was shown. -/
  | shown (pass : Pass)
  /-- A task began. -/
  | began (task : Task)
  /-- A task had its outcome. -/
  | ended (task : Task) (outcome : Except PictureError String)

/-- The session after an action, and what is remembered of it. There is no answer if the action cannot
    happen. -/
def perform? (session : EditSession) : Action → Option (EditSession × Notice)
  | .edit source =>
    match session.edit source with
    | .ok (pass, next) => some (next, .shown pass)
    | .error _ => none
  | .begin index => do
    let task ← session.queue[index]?
    let next ← session.begin? index
    return (next, .began task)
  | .finish index outcome => do
    let call ← session.calls[index]?
    let next ← session.finish? index outcome
    return (next, .ended call.task outcome)

/-- The session after some actions, and what is remembered, the latest first. -/
def run? (session : EditSession) (history : List Notice) :
    List Action → Option (EditSession × List Notice)
  | [] => some (session, history)
  | action :: actions =>
    match session.perform? action with
    | some (next, notice) => run? next (notice :: history) actions
    | none => none

/-! ## What the reader sees by right -/

/-- The pass that was shown last. -/
def latestPass? : List Notice → Option Pass
  | [] => none
  | .shown pass :: _ => some pass
  | .began _ :: earlier => latestPass? earlier
  | .ended _ _ :: earlier => latestPass? earlier

/-- The tasks of the pass that was shown last. -/
def latestTasks (history : List Notice) : List Task := (latestPass? history).elim [] Pass.tasks

/-- Some pictures with the outcomes of some tasks put in their places, each without a look at what stood
    there. -/
def withOutcomes (own : List Task) (pictures : List (String × Picture)) :
    List Notice → List (String × Picture)
  | [] => pictures
  | .ended task outcome :: earlier =>
    if task ∈ own then
      Screen.setPicture (withOutcomes own pictures earlier) task.node.id (.ofOutcome outcome)
    else
      withOutcomes own pictures earlier
  | _ :: earlier => withOutcomes own pictures earlier

/-- The page of the latest pass with the outcomes of its own tasks, and of no others. -/
def replayed (history : List Notice) : Screen :=
  match latestPass? history with
  | none => .empty
  | some pass =>
    let shown := Screen.ofMarkup pass.generation pass.page.html
    { shown with pictures := withOutcomes pass.tasks shown.pictures history }

/-- How often the listener is called by right: for each pass, and for each outcome of a task of the pass
    that was the latest when it came. -/
def notifications : List Notice → Nat
  | [] => 0
  | .shown _ :: earlier => notifications earlier + 1
  | .began _ :: earlier => notifications earlier
  | .ended task _ :: earlier =>
    if task ∈ latestTasks earlier then notifications earlier + 1 else notifications earlier

/-! ## What one action does -/

/-- The tasks whose outcome has not come. -/
def inFlight (session : EditSession) : List Task :=
  session.queue ++ (session.calls.filter fun call => !call.isAnswered).map Call.task

variable {session next : EditSession} {history : List Notice}

theorem edit_spec {source : String} {pass : Pass} (edited : session.edit source = .ok (pass, next)) :
    pass.generation = session.generation + 1 ∧ next.generation = session.generation + 1 ∧
      next.screen = Screen.ofMarkup pass.generation pass.page.html ∧
      next.queue = session.queue ++ pass.tasks ∧ next.calls = session.calls ∧
      next.notified = session.notified + 1 ∧
      (pass.tasks = [] ∨ ∃ theme, pass.tasks = tasksOf next.screen theme) := by
  unfold edit at edited
  cases made : session.maker.make source with
  | error _ =>
    rw [made] at edited
    cases edited
  | ok result =>
    obtain ⟨page, maker⟩ := result
    rw [made] at edited
    cases edited
    refine ⟨rfl, rfl, rfl, rfl, rfl, rfl, ?_⟩
    by_cases typesets : session.typesets = true
    · exact Or.inr ⟨_, if_pos typesets⟩
    · exact Or.inl (if_neg typesets)

theorem begin_spec {index : Nat} (begun : session.begin? index = some next) :
    ∃ task, session.queue[index]? = some task ∧
      next = { session with
        queue := session.queue.eraseIdx index,
        calls := session.calls ++ [⟨task, false⟩] } := by
  unfold begin? at begun
  cases waiting : session.queue[index]? with
  | none => simp [waiting] at begun
  | some task =>
    simp only [waiting, Option.bind_eq_bind, Option.bind_some, Option.pure_def,
      Option.some.injEq] at begun
    exact ⟨task, rfl, begun.symm⟩

theorem finish_spec {index : Nat} {outcome : Except PictureError String}
    (finished : session.finish? index outcome = some next) :
    ∃ call, session.calls[index]? = some call ∧ call.isAnswered = false ∧
      next = { session with
        screen := (session.screen.settle call.task.generation call.task.node.id outcome).1,
        calls := session.calls.set index { call with isAnswered := true },
        notified := session.notified +
          if (session.screen.settle call.task.generation call.task.node.id outcome).2 = .applied
            then 1 else 0 } := by
  unfold finish? at finished
  cases found : session.calls[index]? with
  | none => simp [found] at finished
  | some call =>
    simp only [found, Option.bind_eq_bind, Option.bind_some] at finished
    cases answered : call.isAnswered with
    | true => simp [answered] at finished
    | false =>
      refine ⟨call, rfl, answered, ?_⟩
      rw [answered, if_neg (by decide)] at finished
      cases settled : session.screen.settle call.task.generation call.task.node.id outcome with
      | mk screen settlement =>
        rw [settled] at finished
        cases settlement <;> simpa using finished.symm

/-- All that an action can be, with what is remembered of it. -/
theorem perform_cases {action : Action} {notice : Notice}
    (performed : session.perform? action = some (next, notice)) :
    (∃ source pass, action = .edit source ∧ session.edit source = .ok (pass, next) ∧
      notice = .shown pass) ∨
    (∃ index task, action = .begin index ∧ session.queue[index]? = some task ∧
      session.begin? index = some next ∧ notice = .began task) ∨
    (∃ index outcome call, action = .finish index outcome ∧ session.calls[index]? = some call ∧
      session.finish? index outcome = some next ∧ notice = .ended call.task outcome) := by
  cases action with
  | edit source =>
    simp only [perform?] at performed
    split at performed
    next pass after edited =>
      cases performed
      exact Or.inl ⟨source, pass, rfl, edited, rfl⟩
    next => cases performed
  | begin index =>
    simp only [perform?, Option.bind_eq_bind, Option.bind_eq_some_iff] at performed
    obtain ⟨task, waiting, after, begun, same⟩ := performed
    cases same
    exact Or.inr (Or.inl ⟨index, task, rfl, waiting, begun, rfl⟩)
  | finish index outcome =>
    simp only [perform?, Option.bind_eq_bind, Option.bind_eq_some_iff] at performed
    obtain ⟨call, found, after, finished, same⟩ := performed
    cases same
    exact Or.inr (Or.inr ⟨index, outcome, call, rfl, found, finished, rfl⟩)

/-- What every action keeps is kept by a run. -/
theorem run_invariant {Invariant : List Notice → EditSession → Prop}
    (step : ∀ {history session action next notice}, Invariant history session →
      session.perform? action = some (next, notice) → Invariant (notice :: history) next)
    {actions : List Action} {session' : EditSession} {history' : List Notice}
    (holds : Invariant history session)
    (ran : session.run? history actions = some (session', history')) : Invariant history' session' := by
  induction actions generalizing session history with
  | nil =>
    cases ran
    exact holds
  | cons action actions ih =>
    rw [run?] at ran
    split at ran
    next next notice performed => exact ih (step holds performed) ran
    next => cases ran

theorem inFlight_begin {index : Nat} {task : Task} (waiting : session.queue[index]? = some task) :
    (inFlight { session with
      queue := session.queue.eraseIdx index,
      calls := session.calls ++ [⟨task, false⟩] }).Perm session.inFlight := by
  obtain ⟨bound, rfl⟩ := List.getElem?_eq_some_iff.mp waiting
  have whole : session.queue = session.queue.take index ++ session.queue[index] ::
      session.queue.drop (index + 1) := by simp
  have rest : (session.queue[index] :: session.queue.eraseIdx index).Perm session.queue := by
    rw [List.eraseIdx_eq_take_drop_succ]
    conv => rhs; rw [whole]
    exact List.perm_middle.symm
  unfold inFlight
  simp only [List.filter_append, List.filter_cons, List.filter_nil, List.map_append, List.map_cons,
    Bool.not_false, if_true, List.map_nil]
  rw [← List.append_assoc]
  exact (List.perm_append_singleton _ _).trans (rest.append_right _)

/-- The task of a call that has its outcome is in flight no longer. -/
theorem inFlight_finish {index : Nat} {call : Call} (found : session.calls[index]? = some call)
    (unanswered : call.isAnswered = false) (screen : Screen) (notified : Nat) :
    session.inFlight.Perm (call.task :: inFlight { session with
      screen,
      calls := session.calls.set index { call with isAnswered := true },
      notified }) := by
  obtain ⟨bound, rfl⟩ := List.getElem?_eq_some_iff.mp found
  have whole : session.calls = session.calls.take index ++ session.calls[index] ::
      session.calls.drop (index + 1) := by simp
  unfold inFlight
  rw [List.set_eq_take_append_cons_drop, if_pos bound]
  conv => lhs; rw [whole]
  simp only [List.filter_append, List.filter_cons, unanswered, Bool.not_false, Bool.not_true, if_true,
    Bool.false_eq_true, if_false, List.map_append, List.map_cons]
  rw [← List.append_assoc, ← List.append_assoc]
  exact List.perm_middle

/-! ## Consistency -/

/-- How the tasks in flight, the screen and the memory of a session belong together. -/
structure Consistent (history : List Notice) (session : EditSession) : Prop where
  /-- The screen shows what the reader sees by right. -/
  screen : session.screen = replayed history
  /-- The listener was called as often as is right. -/
  notified : session.notified = notifications history
  /-- The screen belongs to the latest pass. -/
  generation : session.screen.generation = session.generation
  /-- The tasks of the latest pass carry its number. -/
  latest : ∀ task ∈ latestTasks history, task.generation = session.generation
  /-- A task in flight is one of the latest pass, or it is older. -/
  owned : ∀ task ∈ session.inFlight,
    task ∈ latestTasks history ∨ task.generation < session.generation
  /-- In one pass no two tasks in flight have the same id. -/
  distinct : (session.inFlight.map fun task => (task.generation, task.node.id)).Nodup
  /-- The places of the tasks of the latest pass that are in flight wait for their outcomes. -/
  awaited : ∀ task ∈ session.inFlight, task ∈ latestTasks history →
    ∃ source, session.screen.picture? task.node.id = some (.awaited source)
  /-- The places of the tasks of the latest pass that have ended show their outcomes. -/
  settled : ∀ task outcome, .ended task outcome ∈ history → task ∈ latestTasks history →
    session.screen.picture? task.node.id = some (.ofOutcome outcome)
  /-- No outcome is ahead of the session. -/
  past : ∀ task outcome, .ended task outcome ∈ history → task.generation ≤ session.generation

theorem consistent_ofContext (context : PageContext) (typesets : Bool) :
    Consistent [] (ofContext context typesets) where
  screen := rfl
  notified := rfl
  generation := rfl
  latest _ member := absurd member List.not_mem_nil
  owned _ member := absurd member List.not_mem_nil
  distinct := List.nodup_nil
  awaited _ member := absurd member List.not_mem_nil
  settled _ _ member := absurd member List.not_mem_nil
  past _ _ member := absurd member List.not_mem_nil

/-- Outcomes of other tasks leave the pictures of a page as they were. -/
theorem withOutcomes_of_not_mem {own : List Task} {history : List Notice}
    (others : ∀ task outcome, .ended task outcome ∈ history → task ∉ own)
    (pictures : List (String × Picture)) : withOutcomes own pictures history = pictures := by
  induction history with
  | nil => rfl
  | cons notice earlier ih =>
    have before := ih fun task outcome member => others task outcome (List.mem_cons_of_mem _ member)
    cases notice with
    | ended task outcome => rw [withOutcomes, if_neg (others task outcome List.mem_cons_self), before]
    | _ => exact before

theorem Consistent.edit {source : String} {pass : Pass} (consistent : Consistent history session)
    (edited : session.edit source = .ok (pass, next)) : Consistent (.shown pass :: history) next := by
  obtain ⟨number, generation, screen, queue, calls, notified, tasks⟩ := edit_spec edited
  have inFlight : next.inFlight.Perm (pass.tasks ++ session.inFlight) := by
    unfold EditSession.inFlight
    rw [queue, calls, ← List.append_assoc]
    exact List.perm_append_comm.append_right _
  have ofPass : ∀ task ∈ pass.tasks, task.generation = next.generation := fun task member => by
    rcases tasks with none | ⟨theme, some⟩
    · simp [none] at member
    · rw [some] at member
      obtain ⟨node, -, rfl⟩ := List.mem_map.mp member
      rw [screen, Screen.generation_ofMarkup, number, generation]
  have older : ∀ task ∈ session.inFlight, task.generation < next.generation := fun task member => by
    rcases consistent.owned task member with own | old
    · have := consistent.latest task own
      omega
    · omega
  have others : ∀ task outcome, .ended task outcome ∈ Notice.shown pass :: history →
      task ∉ pass.tasks := fun task outcome member own => by
    have atMost := consistent.past task outcome (by simpa using member)
    have number := ofPass task own
    omega
  refine ⟨?_, ?_, ?_, ofPass, ?_, ?_, ?_, ?_, ?_⟩
  · simp only [replayed, latestPass?, withOutcomes_of_not_mem others, screen]
  · rw [notified, consistent.notified, notifications]
  · rw [screen, Screen.generation_ofMarkup, number, generation]
  · intro task member
    rcases List.mem_append.mp (inFlight.mem_iff.mp member) with new | old
    · exact Or.inl new
    · exact Or.inr (older task old)
  · refine (inFlight.map _).nodup_iff.mpr ?_
    rw [List.map_append]
    refine List.nodup_append.mpr ⟨?_, consistent.distinct, ?_⟩
    · rcases tasks with none | ⟨theme, some⟩
      · simp [none]
      · have ids := Screen.nodup_awaitedDiagrams_ofMarkup pass.generation pass.page.html
        rw [← screen] at ids
        rw [some, tasksOf, List.map_map]
        exact (List.pairwise_map.mp ids).map _ fun a b differ same => differ (Prod.mk.inj same).2
    · rintro key new other old rfl
      obtain ⟨task, member, rfl⟩ := List.mem_map.mp new
      obtain ⟨task', member', same⟩ := List.mem_map.mp old
      have := older task' member'
      have := ofPass task member
      have := (Prod.mk.inj same).1
      omega
  · intro task _ own
    rcases tasks with none | ⟨theme, some⟩
    · simp [latestTasks, latestPass?, none] at own
    · have member : task ∈ tasksOf next.screen theme := some ▸ own
      obtain ⟨node, waits, rfl⟩ := List.mem_map.mp member
      exact ⟨_, Screen.mem_awaitedDiagrams waits⟩
  · exact fun task outcome member own => absurd own (others task outcome member)
  · intro task outcome member
    have := consistent.past task outcome (by simpa using member)
    omega

theorem Consistent.begin {index : Nat} {task : Task} (consistent : Consistent history session)
    (waiting : session.queue[index]? = some task) (begun : session.begin? index = some next) :
    Consistent (.began task :: history) next := by
  obtain ⟨task', waiting', rfl⟩ := begin_spec begun
  obtain rfl : task = task' := Option.some.inj (waiting.symm.trans waiting')
  have inFlight := inFlight_begin waiting
  exact {
    screen := consistent.screen
    notified := consistent.notified
    generation := consistent.generation
    latest := consistent.latest
    owned := fun task member => consistent.owned task (inFlight.mem_iff.mp member)
    distinct := (inFlight.map _).nodup_iff.mpr consistent.distinct
    awaited := fun task member => consistent.awaited task (inFlight.mem_iff.mp member)
    settled := fun task outcome member => consistent.settled task outcome (by simpa using member)
    past := fun task outcome member => consistent.past task outcome (by simpa using member) }

theorem mem_inFlight {index : Nat} {call : Call} (found : session.calls[index]? = some call)
    (unanswered : call.isAnswered = false) : call.task ∈ session.inFlight := by
  refine List.mem_append_right _ (List.mem_map_of_mem (List.mem_filter.mpr ⟨?_, by simp [unanswered]⟩))
  exact List.mem_of_getElem? found

/-- The outcome of a task of the latest pass goes to the place of its diagram. -/
theorem Consistent.settle_own {index : Nat} {call : Call} (consistent : Consistent history session)
    (found : session.calls[index]? = some call) (unanswered : call.isAnswered = false)
    (own : call.task ∈ latestTasks history) (outcome : Except PictureError String) :
    session.screen.settle call.task.generation call.task.node.id outcome =
      ({ session.screen with
        pictures := Screen.setPicture session.screen.pictures call.task.node.id (.ofOutcome outcome) },
        .applied) := by
  obtain ⟨source, waits⟩ := consistent.awaited _ (mem_inFlight found unanswered) own
  exact Screen.settle_awaited ((consistent.latest _ own).trans consistent.generation.symm) waits outcome

/-- The outcome of an older task is dropped. -/
theorem Consistent.settle_other {index : Nat} {call : Call} (consistent : Consistent history session)
    (found : session.calls[index]? = some call) (unanswered : call.isAnswered = false)
    (other : call.task ∉ latestTasks history) (outcome : Except PictureError String) :
    session.screen.settle call.task.generation call.task.node.id outcome =
      (session.screen, .stale) := by
  have older := (consistent.owned _ (mem_inFlight found unanswered)).resolve_left other
  have := consistent.generation
  exact Screen.settle_stale (by omega) _ outcome

/-- With the outcome of a task of the latest pass, the right screen has one picture more. -/
theorem replayed_own {task : Task} (own : task ∈ latestTasks history)
    (outcome : Except PictureError String) :
    replayed (.ended task outcome :: history) =
      { replayed history with
        pictures :=
          Screen.setPicture (replayed history).pictures task.node.id (.ofOutcome outcome) } := by
  unfold latestTasks at own
  cases latest : latestPass? history with
  | none => simp [latest] at own
  | some pass =>
    rw [latest] at own
    simp only [replayed, latestPass?, latest, withOutcomes, if_pos (show task ∈ pass.tasks from own)]

theorem replayed_other {task : Task} (other : task ∉ latestTasks history)
    (outcome : Except PictureError String) :
    replayed (.ended task outcome :: history) = replayed history := by
  unfold latestTasks at other
  cases latest : latestPass? history with
  | none => simp only [replayed, latestPass?, latest]
  | some pass =>
    rw [latest] at other
    simp only [replayed, latestPass?, latest, withOutcomes,
      if_neg (show task ∉ pass.tasks from other)]

theorem Consistent.finish {index : Nat} {call : Call} {outcome : Except PictureError String}
    (consistent : Consistent history session) (found : session.calls[index]? = some call)
    (finished : session.finish? index outcome = some next) :
    Consistent (.ended call.task outcome :: history) next := by
  obtain ⟨call', found', unanswered, rfl⟩ := finish_spec finished
  obtain rfl : call = call' := Option.some.inj (found.symm.trans found')
  have inFlight := inFlight_finish found unanswered
  have stays : ∀ screen notified task, task ∈ EditSession.inFlight { session with
      screen, calls := session.calls.set index { call with isAnswered := true }, notified } →
      task ∈ session.inFlight := fun screen notified task member =>
    (inFlight screen notified).mem_iff.mpr (List.mem_cons_of_mem _ member)
  have distinct := fun screen notified =>
    List.nodup_cons.mp (((inFlight screen notified).map
      fun task : Task => (task.generation, task.node.id)).nodup_iff.mp consistent.distinct)
  have ended : ∀ task outcome', .ended task outcome' ∈ Notice.ended call.task outcome :: history →
      task.generation ≤ session.generation := fun task outcome' member => by
    rcases List.mem_cons.mp member with now | before
    · cases now
      rcases consistent.owned _ (mem_inFlight found unanswered) with own | older
      · exact Nat.le_of_eq (consistent.latest _ own)
      · exact Nat.le_of_lt older
    · exact consistent.past task outcome' before
  by_cases own : call.task ∈ latestTasks history
  · rw [consistent.settle_own found unanswered own outcome]
    refine ⟨?_, ?_, consistent.generation, consistent.latest, ?_, (distinct _ _).2, ?_, ?_, ended⟩
    · rw [replayed_own own, ← consistent.screen]
    · rw [notifications, if_pos own, consistent.notified]
      rfl
    · exact fun task member => consistent.owned task (stays _ _ task member)
    · intro task member ownTask
      obtain ⟨source, waits⟩ := consistent.awaited task (stays _ _ task member) ownTask
      have differ : task.node.id ≠ call.task.node.id := fun same =>
        (distinct _ _).1 (List.mem_map.mpr ⟨task, member, Prod.ext
          ((consistent.latest _ ownTask).trans (consistent.latest _ own).symm) same⟩)
      refine ⟨source, ?_⟩
      rw [Screen.picture?, Screen.lookup_setPicture, if_neg differ]
      exact waits
    · intro task outcome' member ownTask
      obtain ⟨source, waits⟩ := consistent.awaited _ (mem_inFlight found unanswered) own
      rw [Screen.picture?, Screen.lookup_setPicture]
      rcases List.mem_cons.mp member with now | before
      · cases now
        rw [if_pos rfl]
        simp only [← Screen.picture?.eq_def, waits, Option.map_some]
      · have shown := consistent.settled task outcome' before ownTask
        have differ : task.node.id ≠ call.task.node.id := fun same => by
          rw [same, waits] at shown
          cases outcome' <;> cases shown
        rw [if_neg differ]
        exact shown
  · rw [consistent.settle_other found unanswered own outcome]
    refine ⟨?_, ?_, consistent.generation, consistent.latest, ?_, (distinct _ _).2, ?_, ?_, ended⟩
    · rw [replayed_other own]
      exact consistent.screen
    · rw [notifications, if_neg own]
      exact consistent.notified
    · exact fun task member => consistent.owned task (stays _ _ task member)
    · exact fun task member => consistent.awaited task (stays _ _ task member)
    · intro task outcome' member ownTask
      rcases List.mem_cons.mp member with now | before
      · cases now
        exact absurd ownTask own
      · exact consistent.settled task outcome' before ownTask

/-- Every action keeps a session consistent. -/
theorem Consistent.perform {action : Action} {notice : Notice}
    (consistent : Consistent history session)
    (performed : session.perform? action = some (next, notice)) :
    Consistent (notice :: history) next := by
  rcases perform_cases performed with ⟨_, _, _, edited, rfl⟩ | ⟨_, _, _, waiting, begun, rfl⟩ |
    ⟨_, _, _, _, found, finished, rfl⟩
  · exact consistent.edit edited
  · exact consistent.begin waiting begun
  · exact consistent.finish found finished

theorem Consistent.run {actions : List Action} {session' : EditSession} {history' : List Notice}
    (consistent : Consistent history session)
    (ran : session.run? history actions = some (session', history')) :
    Consistent history' session' :=
  run_invariant (fun consistent performed => consistent.perform performed) consistent ran

/-! ## Runs from the beginning -/

/-- After any actions in any order the reader sees the page of the latest pass with the outcomes of its own
    tasks, each in its own place. The outcome of a task of an earlier pass changes nothing, whatever its id,
    and the listener does not hear of it. -/
theorem screen_eq_replayed {context : PageContext} {typesets : Bool} {actions : List Action}
    {session : EditSession} {history : List Notice}
    (ran : (ofContext context typesets).run? [] actions = some (session, history)) :
    session.screen = replayed history ∧ session.notified = notifications history ∧
      (∀ task outcome, .ended task outcome ∈ history → task ∈ latestTasks history →
        session.screen.picture? task.node.id = some (.ofOutcome outcome)) ∧
      ∀ index outcome task next,
        session.perform? (.finish index outcome) = some (next, .ended task outcome) →
          task ∉ latestTasks history →
            next.screen = session.screen ∧ next.notified = session.notified := by
  have consistent := (consistent_ofContext context typesets).run ran
  refine ⟨consistent.screen, consistent.notified, consistent.settled,
    fun index outcome task next performed other => ?_⟩
  have after := consistent.perform performed
  constructor
  · rw [after.screen, replayed_other other, consistent.screen]
  · rw [after.notified, notifications, if_neg other, consistent.notified]

/-- Two passes with one diagram each, and both diagrams begin to be typeset. -/
def twoPasses : List Action :=
  [.edit "```mermaid\nold\n```\n", .edit "```mermaid\nnew\n```\n", .begin 0, .begin 0]

/-- Both diagrams are called `mermaid-1`. The picture of the first comes after the second pass and is
    dropped; the picture of the second is shown. -/
theorem late_picture_is_dropped :
    ∃ session history,
      (ofContext (.ofOptions { PageOptions.usual with naming := .sequential }) true).run? []
          (twoPasses ++ [.finish 0 (.ok "<svg>old</svg>"), .finish 1 (.ok "<svg>new</svg>")]) =
        some (session, history) ∧
      session.screen = replayed history ∧ session.notified = 3 ∧
      session.markup =
        "<div class=\"mermaid\" id=\"mermaid-1\" data-processed=\"true\"><svg>new</svg></div>\n" := by
  have seen :
      ((ofContext (.ofOptions { PageOptions.usual with naming := .sequential }) true).run? []
          (twoPasses ++ [.finish 0 (.ok "<svg>old</svg>"), .finish 1 (.ok "<svg>new</svg>")])).map
        (fun result => (notifications result.2, result.1.markup)) =
      some (3, "<div class=\"mermaid\" id=\"mermaid-1\" data-processed=\"true\"><svg>new</svg></div>\n") := by
    decide +kernel
  obtain ⟨⟨session, history⟩, ran, same⟩ := Option.map_eq_some_iff.mp seen
  obtain ⟨notified, markup⟩ := Prod.mk.inj same
  obtain ⟨screen, counted, -⟩ := screen_eq_replayed ran
  exact ⟨session, history, ran, screen, counted.trans notified, markup⟩

end Galley.EditSession
