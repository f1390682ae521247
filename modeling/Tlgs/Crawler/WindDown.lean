import Tlgs.Crawler.Dispatch
import Mathlib.Algebra.GroupWithZero.Nat

/-!
# Coming to rest

Once `ended_` is set, a call of `dispatchCrawl` returns at once, so the tasks that are under way go
on to their ends and start none that lasts. And nothing rests before: as long as a task or
`awaitEnd` has not returned, one of them can take a step.
-/
namespace Tlgs

namespace Dispatch

/-- The steps that a task has before it at most once `ended_` is set, with those of the calls it
makes. -/
def Phase.steps : Phase → Nat
  | .called => 1
  | .entered => 9
  | .counted _ => 8
  | .rejected => 1
  | .searching => 7
  | .exhausted => 2
  | .released _ => 1
  | .found => 6
  | .crawling => 4
  | .crawled => 3
  | .failed => 3
  | .finishing => 1
  | .done => 0

def Waiter.steps : Waiter → Nat
  | .sleeping _ => 1
  | .awake _ => 3
  | .ending => 1
  | .returned => 0

def State.steps (s : State) : Nat := (s.tasks.map Phase.steps).sum + s.waiter.steps

theorem Phase.steps_le (phase : Phase) : phase.steps ≤ 9 := by
  cases phase <;> simp [Phase.steps]

theorem Waiter.steps_le (waiter : Waiter) : waiter.steps ≤ 3 := by
  cases waiter <;> simp [Waiter.steps]

theorem State.steps_le (s : State) : s.steps ≤ 9 * s.tasks.length + 3 := by
  have tasks : ∀ tasks : List Phase, (tasks.map Phase.steps).sum ≤ 9 * tasks.length := by
    intro tasks
    induction tasks with
    | nil => exact Nat.le_refl 0
    | cons phase tasks ih =>
      have first := phase.steps_le
      simp only [List.map_cons, List.sum_cons, List.length_cons]
      omega
  exact Nat.add_le_add (tasks s.tasks) s.waiter.steps_le

/-- A task that moves on, for the sum over all tasks. -/
theorem sum_set {tasks : List Phase} {task : Nat} {phase : Phase}
    (current : tasks[task]? = some phase) (next : Phase) :
    ((tasks.set task next).map Phase.steps).sum + phase.steps =
      (tasks.map Phase.steps).sum + next.steps := by
  induction tasks generalizing task with
  | nil => cases current
  | cons first tasks ih =>
    cases task with
    | zero =>
      cases current
      simp only [List.set_cons_zero, List.map_cons, List.sum_cons]
      omega
    | succ task =>
      have rest := ih current
      simp only [List.set_cons_succ, List.map_cons, List.sum_cons]
      omega

section Steps

variable {max : Nat} {s s' : State} {action : Action} {task : Nat} {phase next : Phase}

theorem steps_move (current : s.tasks[task]? = some phase) (fewer : next.steps < phase.steps) :
    (s.move task next).steps < s.steps := by
  have total := sum_set current next
  simp only [State.steps, State.move]
  omega

/-- A call has one step before it. -/
theorem steps_call (s : State) : s.call.steps = s.steps + 1 := by
  simp only [State.steps, State.call, List.map_append, List.sum_append, List.map_singleton,
    List.sum_singleton, Phase.steps]
  omega

/-- Every step but a call from outside leaves fewer to take. -/
theorem steps_step (ended : s.ended = true) (inside : action ≠ .dispatch)
    (taken : step max s action = some s') :
    s'.ended = true ∧ s'.steps < s.steps := by
  cases action with
  | dispatch => exact absurd rfl inside
  | loadEnded task =>
    simp only [step, ended, if_true] at taken
    split at taken
    next current =>
      cases taken
      exact ⟨ended, steps_move current (by decide)⟩
    · cases taken
  | construct task =>
    simp only [step] at taken
    split at taken
    next current =>
      cases taken
      exact ⟨ended, steps_move current (by simp [Phase.steps])⟩
    · cases taken
  | checkLimit task =>
    simp only [step] at taken
    split at taken
    next current =>
      cases taken
      refine ⟨ended, steps_move current ?_⟩
      split <;> simp [Phase.steps]
    · cases taken
  | nextPage task answer =>
    simp only [step] at taken
    split at taken
    next current =>
      cases answer with
      | url =>
        cases taken
        exact ⟨ended, steps_move current (by decide)⟩
      | noUrl =>
        cases taken
        exact ⟨ended, steps_move current (by decide)⟩
      | throws =>
        cases taken
        exact ⟨ended, steps_move current (by decide)⟩
    · cases taken
  | release task =>
    simp only [step] at taken
    split at taken
    next current =>
      cases taken
      exact ⟨ended, steps_move current (by simp [Phase.steps])⟩
    · cases taken
  | storeEnded task =>
    simp only [step] at taken
    split at taken
    next current =>
      cases taken
      refine ⟨by simp [ended], ?_⟩
      exact steps_move current (by simp [Phase.steps])
    · cases taken
  | redispatch task =>
    -- the call that is made returns at once
    have called : ∀ {phase next : Phase}, s.tasks[task]? = some phase →
        next.steps + 1 < phase.steps →
        (s.move task next).call.ended = true ∧ (s.move task next).call.steps < s.steps := by
      intro phase next current fewer
      have total := sum_set current next
      refine ⟨ended, ?_⟩
      rw [steps_call]
      simp only [State.steps, State.move]
      omega
    simp only [step] at taken
    split at taken
    next current =>
      cases taken
      exact called current (by decide)
    next current =>
      cases taken
      exact called current (by decide)
    next current =>
      cases taken
      exact called current (by decide)
    · cases taken
  | pageDone task =>
    simp only [step] at taken
    split at taken
    next current =>
      cases taken
      exact ⟨ended, steps_move current (by decide)⟩
    · cases taken
  | destroy task =>
    simp only [step] at taken
    split at taken
    next current =>
      cases taken
      exact ⟨ended, steps_move current (by decide)⟩
    next current =>
      cases taken
      exact ⟨ended, steps_move current (by decide)⟩
    · cases taken
  | wake =>
    simp only [step] at taken
    split at taken
    next asleep =>
      cases taken
      refine ⟨ended, ?_⟩
      simp [State.steps, ended, asleep, Waiter.steps]
    · cases taken
  | poll =>
    simp only [step] at taken
    split at taken
    next finishCount awake =>
      have before : s.waiter.steps = 3 := by rw [awake]; rfl
      split at taken
      · cases taken
        -- the call takes one of the steps, and `awaitEnd` has one left
        have after : (if finishCount + 1 = 5 then Waiter.ending
            else .sleeping (finishCount + 1)).steps = 1 := by
          split <;> rfl
        have calls : (s.call.tasks.map Phase.steps).sum = (s.tasks.map Phase.steps).sum + 1 := by
          simp [State.call, Phase.steps]
        refine ⟨ended, ?_⟩
        rw [State.steps, State.steps, before, after, calls]
        omega
      · cases taken
        refine ⟨ended, ?_⟩
        rw [State.steps, State.steps, before]
        have after : (Waiter.sleeping 0).steps < 3 := by decide
        exact Nat.add_lt_add_left after _
    · cases taken
  | giveUp =>
    simp only [step] at taken
    split at taken
    next ending =>
      cases taken
      refine ⟨rfl, ?_⟩
      simp [State.steps, ending, Waiter.steps]
    · cases taken

end Steps

/-! ### Nothing rests before its end -/

/-- Only calls from outside are possible. -/
def Resting (max : Nat) (s : State) : Prop :=
  ∀ action, action ≠ .dispatch → step max s action = none

/-- A task that is not done can take a step. -/
theorem can_step (max : Nat) {s : State} {task : Nat} {phase : Phase}
    (current : s.tasks[task]? = some phase) (going : phase ≠ .done) :
    ∃ action, action ≠ .dispatch ∧ (step max s action).isSome = true := by
  cases phase with
  | called => exact ⟨.loadEnded task, by simp, by simp [step, current]⟩
  | entered => exact ⟨.construct task, by simp, by simp [step, current]⟩
  | counted count => exact ⟨.checkLimit task, by simp, by simp [step, current]⟩
  | rejected => exact ⟨.destroy task, by simp, by simp [step, current]⟩
  | searching => exact ⟨.nextPage task .url, by simp, by simp [step, current]⟩
  | exhausted => exact ⟨.release task, by simp, by simp [step, current]⟩
  | released count => exact ⟨.storeEnded task, by simp, by simp [step, current]⟩
  | found => exact ⟨.redispatch task, by simp, by simp [step, current]⟩
  | crawling => exact ⟨.pageDone task, by simp, by simp [step, current]⟩
  | crawled => exact ⟨.redispatch task, by simp, by simp [step, current]⟩
  | failed => exact ⟨.redispatch task, by simp, by simp [step, current]⟩
  | finishing => exact ⟨.destroy task, by simp, by simp [step, current]⟩
  | done => exact absurd rfl going

theorem waiter_can_step (max : Nat) {s : State} (waits : s.waiter ≠ .returned) :
    ∃ action, action ≠ .dispatch ∧ (step max s action).isSome = true := by
  cases waiter : s.waiter with
  | sleeping finishCount => exact ⟨.wake, by simp, by simp [step, waiter]⟩
  | awake finishCount =>
    refine ⟨.poll, by simp, ?_⟩
    simp only [step, waiter]
    split <;> rfl
  | ending => exact ⟨.giveUp, by simp, by simp [step, waiter]⟩
  | returned => exact absurd waiter waits

theorem all_done_of_resting {max : Nat} {s : State} (resting : Resting max s) :
    s.waiter = .returned ∧ ∀ phase ∈ s.tasks, phase = .done := by
  have none_possible : ¬∃ action, action ≠ .dispatch ∧ (step max s action).isSome = true := by
    rintro ⟨action, inside, possible⟩
    rw [resting action inside] at possible
    cases possible
  constructor
  · by_contra waits
    exact none_possible (waiter_can_step max waits)
  · intro phase member
    by_contra going
    obtain ⟨task, current⟩ := List.getElem?_of_mem member
    exact none_possible (can_step max current going)

/-- `awaitEnd` returns only when `ended_` is set, which nothing takes back. -/
def ReturnsEnded (s : State) : Prop := s.waiter = .returned → s.ended = true

theorem step_returnsEnded {max : Nat} {s s' : State} {action : Action} (before : ReturnsEnded s)
    (taken : step max s action = some s') : ReturnsEnded s' := by
  -- the two steps that let `awaitEnd` return, then those that leave it alone
  cases action with
  | wake =>
    simp only [step] at taken
    split at taken <;> cases taken
    intro returned
    by_contra going
    simp [going] at returned
  | giveUp =>
    simp only [step] at taken
    split at taken <;> cases taken
    exact fun _ => rfl
  | poll =>
    simp only [step] at taken
    split at taken
    · split at taken <;> cases taken
      · intro returned
        split at returned <;> cases returned
      · intro returned
        cases returned
    · cases taken
  | storeEnded task =>
    simp only [step] at taken
    split at taken <;> cases taken
    intro returned
    simp [before returned]
  | dispatch =>
    cases taken
    exact before
  | _ =>
    simp only [step] at taken
    split at taken <;> (try split at taken) <;> cases taken <;> exact before

/-- After `ended_` is set the tasks and `awaitEnd` come to their ends within nine steps for each
task and three, whatever the order, if nobody calls `dispatchCrawl` from outside; and a state in
which none of them can take a step is the one in which all have come to their ends, with `ended_`
set and no crawl counted. -/
theorem winds_down (max : Nat) {past : List (State × Action)} {s : State}
    (run : Transition.Run (step max) State.init past s) :
    (s.ended = true → ∀ later s', Transition.Run (step max) s later s' →
      Transition.EachStep (fun _ action => action ≠ .dispatch) later →
      s'.ended = true ∧ later.length ≤ 9 * s.tasks.length + 3) ∧
    (Resting max s → s.ended = true ∧ s.ongoing = 0 ∧ s.waiter = .returned ∧
      ∀ phase ∈ s.tasks, phase = .done) := by
  constructor
  · intro ended later s' onward inside
    obtain ⟨still, bound⟩ := onward.length_le State.steps ended
      (fun _ _ _ ended inside taken => steps_step ended inside taken) inside
    have most := s.steps_le
    exact ⟨still, by omega⟩
  · intro resting
    obtain ⟨returned, done⟩ := all_done_of_resting resting
    have initially : Accounted State.init ∧ ReturnsEnded State.init :=
      ⟨rfl, fun returned => by cases returned⟩
    have holds : Transition.Always (fun s => Accounted s ∧ ReturnsEnded s) past s :=
      run.always initially fun _ _ _ ⟨accounted, returns⟩ taken =>
        ⟨step_accounted accounted taken, step_returnsEnded returns taken⟩
    obtain ⟨accounted, returnsEnded⟩ := holds.2
    -- a task that is done holds no Counter
    have unheld : s.tasks.countP Phase.holdsCounter = 0 := by
      rw [List.countP_eq_zero]
      intro phase member
      rw [done phase member]
      decide
    exact ⟨returnsEnded returned, accounted.trans unheld, returned, done⟩

/-- One crawl is under way when another task sets `ended_`. -/
theorem winds_down_overtaken :
    ∃ past s, Transition.Run (step 2) State.init past s ∧ s.ended = true ∧
      ((s.ended = true → ∀ later s', Transition.Run (step 2) s later s' →
        Transition.EachStep (fun _ action => action ≠ .dispatch) later →
        s'.ended = true ∧ later.length ≤ 9 * s.tasks.length + 3) ∧
      (Resting 2 s → s.ended = true ∧ s.ongoing = 0 ∧ s.waiter = .returned ∧
        ∀ phase ∈ s.tasks, phase = .done)) := by
  have possible : (Transition.replay (step 2) [] State.init overtaken).isSome = true := by decide
  have run := Transition.Run.of_replay .start (Option.some_get possible).symm
  exact ⟨_, _, run, rfl, winds_down 2 run⟩

end Dispatch

end Tlgs
