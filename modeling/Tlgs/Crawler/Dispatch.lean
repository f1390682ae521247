import Tlgs.Base.Transition
import Mathlib.Data.List.Basic

/-!
# Dispatching crawls

Every call of `dispatchCrawl` is a task. Each access to one of the two atomics, the
flag `ended_` and the counter `ongoing_crawlings_`, is a step of its own, and so is
each result that a task waits for. A call that a task makes, directly or through the
event loop, is a new task, so that every order in which the loop may run them is an
interleaving of steps.
-/
namespace Tlgs

namespace Dispatch

/-- Where a call of `dispatchCrawl` stands. -/
inductive Phase
  /-- before the test of `ended_` -/
  | called
  /-- `ended_` was not set; before the `Counter` is constructed -/
  | entered
  /-- the `Counter` is constructed and `count()` is the value it found -/
  | counted (count : Nat)
  /-- turned away at the limit, with the `Counter` still to be destroyed -/
  | rejected
  /-- in `getNextCrawlPage` -/
  | searching
  /-- there was no URL; before `release()` -/
  | exhausted
  /-- `release()` returned; before the comparison and the store -/
  | released (count : Nat)
  /-- there was a URL; before the first re-dispatch -/
  | found
  /-- in `crawlPage` -/
  | crawling
  /-- `crawlPage` returned; before the second re-dispatch -/
  | crawled
  /-- an exception was caught; before the handler's re-dispatch -/
  | failed
  /-- the coroutine ends, with the `Counter` still to be destroyed -/
  | finishing
  | done
  deriving DecidableEq, Repr

namespace Phase

/-- The task passed the limit check and is neither finished nor released. -/
def admitted : Phase → Bool
  | searching | exhausted | found | crawling | crawled | failed | finishing => true
  | _ => false

/-- The task has a `Counter` that is neither released nor destroyed. -/
def holdsCounter : Phase → Bool
  | counted _ | rejected => true
  | phase => phase.admitted

end Phase

/-- What `awaitEnd` is about to do. -/
inductive Waiter
  | sleeping (finishCount : Nat)
  | awake (finishCount : Nat)
  /-- five polls in a row found no crawl; before the store of `ended_` -/
  | ending
  | returned
  deriving DecidableEq, Repr

structure State where
  ongoing : Nat
  ended : Bool
  tasks : List Phase
  waiter : Waiter
  deriving DecidableEq, Repr

def State.init : State := ⟨0, false, [], .sleeping 0⟩

inductive Answer
  | url
  | noUrl
  | throws
  deriving DecidableEq, Repr

inductive Action
  /-- a caller other than a task: `start`, `crawlAll` -/
  | dispatch
  | loadEnded (task : Nat)
  | construct (task : Nat)
  | checkLimit (task : Nat)
  | nextPage (task : Nat) (answer : Answer)
  | release (task : Nat)
  | storeEnded (task : Nat)
  | redispatch (task : Nat)
  | pageDone (task : Nat)
  | destroy (task : Nat)
  /-- `awaitEnd` wakes up and tests `ended_` -/
  | wake
  /-- `awaitEnd` tests `ongoing_crawlings_` -/
  | poll
  /-- `awaitEnd` sets `ended_` -/
  | giveUp
  deriving DecidableEq, Repr

namespace State

def move (s : State) (task : Nat) (phase : Phase) : State :=
  { s with tasks := s.tasks.set task phase }

/-- A new call of `dispatchCrawl`. -/
def call (s : State) : State :=
  { s with tasks := s.tasks ++ [.called] }

end State

/-- One step, `max` being `max_concurrent_connections_`. A `Counter` is only given back
while one is held, so the subtractions do not wrap around. -/
def step (max : Nat) (s : State) : Action → Option State
  | .dispatch => some s.call
  | .loadEnded task =>
    match s.tasks[task]? with
    -- `if(ended_) return;` stands before the `Counter`, so nothing is counted yet
    | some .called => some (s.move task (if s.ended then .done else .entered))
    | _ => none
  | .construct task =>
    match s.tasks[task]? with
    | some .entered => some { s.move task (.counted s.ongoing) with ongoing := s.ongoing + 1 }
    | _ => none
  | .checkLimit task =>
    match s.tasks[task]? with
    | some (.counted count) => some (s.move task (if count ≥ max then .rejected else .searching))
    | _ => none
  | .nextPage task answer =>
    match s.tasks[task]? with
    | some .searching =>
      match answer with
      | .url => some (s.move task .found)
      | .noUrl => some (s.move task .exhausted)
      | .throws => some (s.move task .failed)
    | _ => none
  | .release task =>
    match s.tasks[task]? with
    | some .exhausted =>
      -- `fetch_sub` returns the old value, `release` one less
      some { s.move task (.released (s.ongoing - 1)) with ongoing := s.ongoing - 1 }
    | _ => none
  | .storeEnded task =>
    match s.tasks[task]? with
    | some (.released count) => some { s.move task .done with ended := s.ended || count == 1 }
    | _ => none
  | .redispatch task =>
    match s.tasks[task]? with
    -- `runInLoop` before the crawl, `queueInLoop` after it, a direct call in the handler
    | some .found => some (s.move task .crawling).call
    | some .crawled => some (s.move task .finishing).call
    | some .failed => some (s.move task .finishing).call
    | _ => none
  | .pageDone task =>
    match s.tasks[task]? with
    | some .crawling => some (s.move task .crawled)
    | _ => none
  | .destroy task =>
    match s.tasks[task]? with
    -- the destructor of the last copy of the pointer
    | some .rejected => some { s.move task .done with ongoing := s.ongoing - 1 }
    | some .finishing => some { s.move task .done with ongoing := s.ongoing - 1 }
    | _ => none
  | .wake =>
    match s.waiter with
    | .sleeping finishCount =>
      some { s with waiter := if s.ended then .returned else .awake finishCount }
    | _ => none
  | .poll =>
    match s.waiter with
    | .awake finishCount =>
      if s.ongoing = 0 then
        some { s.call with
          waiter := if finishCount + 1 = 5 then .ending else .sleeping (finishCount + 1) }
      else some { s with waiter := .sleeping 0 }
    | _ => none
  | .giveUp =>
    match s.waiter with
    | .ending => some { s with ended := true, waiter := .returned }
    | _ => none

/-! ### What a step does -/

/-- How an action changes the phase of its task. -/
inductive Moves (max ongoing : Nat) : Action → Nat → Phase → Phase → Prop
  | stop (task : Nat) : Moves max ongoing (.loadEnded task) task .called .done
  | enter (task : Nat) : Moves max ongoing (.loadEnded task) task .called .entered
  | construct (task : Nat) : Moves max ongoing (.construct task) task .entered (.counted ongoing)
  | reject (task count : Nat) (full : max ≤ count) :
      Moves max ongoing (.checkLimit task) task (.counted count) .rejected
  | accept (task count : Nat) (room : count < max) :
      Moves max ongoing (.checkLimit task) task (.counted count) .searching
  | find (task : Nat) : Moves max ongoing (.nextPage task .url) task .searching .found
  | exhaust (task : Nat) : Moves max ongoing (.nextPage task .noUrl) task .searching .exhausted
  | fail (task : Nat) : Moves max ongoing (.nextPage task .throws) task .searching .failed
  | release (task : Nat) :
      Moves max ongoing (.release task) task .exhausted (.released (ongoing - 1))
  | store (task count : Nat) : Moves max ongoing (.storeEnded task) task (.released count) .done
  | crawl (task : Nat) : Moves max ongoing (.redispatch task) task .found .crawling
  | requeue (task : Nat) : Moves max ongoing (.redispatch task) task .crawled .finishing
  | recover (task : Nat) : Moves max ongoing (.redispatch task) task .failed .finishing
  | pageDone (task : Nat) : Moves max ongoing (.pageDone task) task .crawling .crawled
  | turnedAway (task : Nat) : Moves max ongoing (.destroy task) task .rejected .done
  | finish (task : Nat) : Moves max ongoing (.destroy task) task .finishing .done

def held (phase : Phase) : Nat :=
  if phase.holdsCounter then 1 else 0

/-- Nothing or one call is started along with a step. -/
def AtMostOneCall (calls : List Phase) : Prop :=
  calls = [] ∨ calls = [.called]

private theorem moved {max : Nat} {s s' : State} {action : Action} {task : Nat}
    {phase next : Phase} (current : s.tasks[task]? = some phase)
    (moves : Moves max s.ongoing action task phase next)
    (tasks : s'.tasks = s.tasks.set task next)
    (ongoing : s'.ongoing = s.ongoing + held next - held phase) :
    ∃ task phase next calls, s.tasks[task]? = some phase ∧
      Moves max s.ongoing action task phase next ∧ AtMostOneCall calls ∧
      s'.tasks = s.tasks.set task next ++ calls ∧
      s'.ongoing = s.ongoing + held next - held phase :=
  ⟨task, phase, next, [], current, moves, .inl rfl, by rw [tasks, List.append_nil], ongoing⟩

/-- A step moves one task by one of the moves above, or none; it may start a call. -/
theorem step_cases {max : Nat} {s s' : State} {action : Action}
    (taken : step max s action = some s') :
    (∃ task phase next calls, s.tasks[task]? = some phase ∧
      Moves max s.ongoing action task phase next ∧ AtMostOneCall calls ∧
      s'.tasks = s.tasks.set task next ++ calls ∧
      s'.ongoing = s.ongoing + held next - held phase) ∨
    ((∀ task, action ≠ .release task ∧ action ≠ .checkLimit task) ∧
      ∃ calls, AtMostOneCall calls ∧ s'.tasks = s.tasks ++ calls ∧ s'.ongoing = s.ongoing) := by
  cases action with
  -- a new call, and nothing else
  | dispatch =>
    cases taken
    exact .inr ⟨by simp, [.called], .inr rfl, rfl, rfl⟩
  | loadEnded task =>
    simp only [step] at taken
    split at taken
    next current =>
      cases taken
      -- `ended_` may be set by now
      split
      · exact .inl (moved current (.stop task) rfl rfl)
      · exact .inl (moved current (.enter task) rfl rfl)
    · cases taken
  | construct task =>
    simp only [step] at taken
    split at taken
    next current =>
      cases taken
      exact .inl (moved current (.construct task) rfl rfl)
    · cases taken
  | checkLimit task =>
    simp only [step] at taken
    split at taken
    next count current =>
      cases taken
      split
      next full => exact .inl (moved current (.reject task count full) rfl rfl)
      next room => exact .inl (moved current (.accept task count (Nat.lt_of_not_le room)) rfl rfl)
    · cases taken
  | nextPage task answer =>
    simp only [step] at taken
    split at taken
    next current =>
      -- there is a URL or none, or the search throws
      cases answer <;> cases taken
      · exact .inl (moved current (.find task) rfl rfl)
      · exact .inl (moved current (.exhaust task) rfl rfl)
      · exact .inl (moved current (.fail task) rfl rfl)
    · cases taken
  | release task =>
    simp only [step] at taken
    split at taken
    next current =>
      cases taken
      exact .inl (moved current (.release task) rfl rfl)
    · cases taken
  | storeEnded task =>
    simp only [step] at taken
    split at taken
    next count current =>
      cases taken
      exact .inl (moved current (.store task count) rfl rfl)
    · cases taken
  | redispatch task =>
    simp only [step] at taken
    split at taken
    next current =>
      -- the phase tells which of the three calls this is
      cases taken
      exact .inl ⟨task, _, _, _, current, .crawl task, .inr rfl, rfl, rfl⟩
    next current =>
      cases taken
      exact .inl ⟨task, _, _, _, current, .requeue task, .inr rfl, rfl, rfl⟩
    next current =>
      cases taken
      exact .inl ⟨task, _, _, _, current, .recover task, .inr rfl, rfl, rfl⟩
    · cases taken
  | pageDone task =>
    simp only [step] at taken
    split at taken
    next current =>
      cases taken
      exact .inl (moved current (.pageDone task) rfl rfl)
    · cases taken
  | destroy task =>
    simp only [step] at taken
    split at taken
    next current =>
      cases taken
      exact .inl (moved current (.turnedAway task) rfl rfl)
    next current =>
      cases taken
      exact .inl (moved current (.finish task) rfl rfl)
    · cases taken
  | wake =>
    simp only [step] at taken
    split at taken <;> cases taken
    exact .inr ⟨by simp, [], .inl rfl, (List.append_nil _).symm, rfl⟩
  | poll =>
    simp only [step] at taken
    -- `awaitEnd` calls again when it finds no crawl going on
    split at taken
    · split at taken <;> cases taken
      · exact .inr ⟨by simp, [.called], .inr rfl, rfl, rfl⟩
      · exact .inr ⟨by simp, [], .inl rfl, (List.append_nil _).symm, rfl⟩
    · cases taken
  | giveUp =>
    simp only [step] at taken
    split at taken <;> cases taken
    exact .inr ⟨by simp, [], .inl rfl, (List.append_nil _).symm, rfl⟩

/-! ### The counter counts the Counters -/

def Accounted (s : State) : Prop :=
  s.ongoing = s.tasks.countP Phase.holdsCounter

private theorem uncounted_calls {calls : List Phase} (few : AtMostOneCall calls) :
    calls.countP Phase.holdsCounter = 0 := by
  rcases few with rfl | rfl <;> rfl

/-- `ongoing_crawlings_` is the number of Counters neither released nor destroyed. -/
theorem step_accounted {max : Nat} {s s' : State} {action : Action} (accounted : Accounted s)
    (taken : step max s action = some s') : Accounted s' := by
  rcases step_cases taken with
    ⟨task, phase, next, calls, current, _, few, tasks, ongoing⟩ | ⟨_, calls, few, tasks, ongoing⟩
  · -- the task that moves is counted among the others before it gives a Counter back
    obtain ⟨bound, value⟩ := List.getElem?_eq_some_iff.mp current
    have present : held phase ≤ s.tasks.countP Phase.holdsCounter := by
      simp only [held]
      split
      next holds => exact List.countP_pos_iff.mpr ⟨phase, List.mem_of_getElem? current, holds⟩
      · exact Nat.zero_le _
    rw [Accounted, tasks, ongoing, List.countP_append, uncounted_calls few, List.countP_set bound,
      value, accounted]
    simp only [held] at *
    omega
  · rw [Accounted, tasks, ongoing, List.countP_append, uncounted_calls few]
    exact accounted

/-! ### The limit -/

/-- The task has a place below the limit: it was let in, or its check is still to come and
will let it in. -/
def Phase.claims (max : Nat) : Phase → Bool
  | counted count => count < max
  | phase => phase.admitted

def Bounded (max : Nat) (s : State) : Prop :=
  s.tasks.countP (Phase.claims max) ≤ max

theorem Phase.holdsCounter_of_claims {max : Nat} {phase : Phase}
    (claims : phase.claims max = true) :
    phase.holdsCounter = true := by
  cases phase <;> first | rfl | exact claims

theorem Phase.claims_of_admitted {max : Nat} {phase : Phase} (admitted : phase.admitted = true) :
    phase.claims max = true := by
  cases phase <;> first | rfl | cases admitted

/-- Only a task that constructs its Counter can take a place, and only with a count below the
limit. -/
private theorem claims_of_moves {max ongoing task : Nat} {action : Action} {phase next : Phase}
    (moves : Moves max ongoing action task phase next) (claims : next.claims max = true) :
    phase.claims max = true ∨ ongoing < max := by
  cases moves with
  | construct => exact .inr (of_decide_eq_true claims)
  | accept _ count room => exact .inl (decide_eq_true room)
  | _ => first | exact .inl rfl | cases claims

private theorem unclaimed_calls {max : Nat} {calls : List Phase} (few : AtMostOneCall calls) :
    calls.countP (Phase.claims max) = 0 := by
  rcases few with rfl | rfl <;> rfl

/-- A new Counter below the limit finds fewer places taken than there are Counters. -/
theorem step_bounded {max : Nat} {s s' : State} {action : Action} (accounted : Accounted s)
    (bounded : Bounded max s) (taken : step max s action = some s') : Bounded max s' := by
  rcases step_cases taken with
    ⟨task, phase, next, calls, current, moves, few, tasks, _⟩ | ⟨_, calls, few, tasks, _⟩
  · obtain ⟨bound, value⟩ := List.getElem?_eq_some_iff.mp current
    have places : s.tasks.countP (Phase.claims max) ≤ s.ongoing := by
      rw [accounted]
      exact List.countP_mono_left fun _ _ => Phase.holdsCounter_of_claims
    have before : phase.claims max = true → 0 < s.tasks.countP (Phase.claims max) := fun claims =>
      List.countP_pos_iff.mpr ⟨phase, List.mem_of_getElem? current, claims⟩
    have new := claims_of_moves moves
    rw [Bounded] at bounded
    rw [Bounded, tasks, List.countP_append, unclaimed_calls few, List.countP_set bound, value]
    by_cases claims : next.claims max = true
    · rcases new claims with old | room
      · -- the place is the task's own
        have some_place := before old
        rw [if_pos old, if_pos claims]
        omega
      · split <;> omega
    · rw [if_neg claims]
      omega
  · rw [Bounded, tasks, List.countP_append, unclaimed_calls few]
    exact bounded

/-- In every state of every run the counter is the number of Counters neither released nor
destroyed, and no more tasks than the limit allows are past the check and neither finished nor
released. -/
theorem crawls_bounded (max : Nat) {past : List (State × Action)} {s : State}
    (run : Transition.Run (step max) State.init past s) :
    Transition.Always (fun s => s.ongoing = s.tasks.countP Phase.holdsCounter ∧
      s.tasks.countP Phase.admitted ≤ max) past s := by
  have initially : Accounted State.init ∧ Bounded max State.init := ⟨rfl, Nat.zero_le max⟩
  have holds : Transition.Always (fun s => Accounted s ∧ Bounded max s) past s :=
    run.always initially fun _ _ _ ⟨accounted, bounded⟩ taken =>
      ⟨step_accounted accounted taken, step_bounded accounted bounded taken⟩
  have admitted : ∀ s, Accounted s ∧ Bounded max s →
      s.ongoing = s.tasks.countP Phase.holdsCounter ∧ s.tasks.countP Phase.admitted ≤ max :=
    fun s ⟨accounted, bounded⟩ => ⟨accounted,
      Nat.le_trans (List.countP_mono_left fun _ _ => Phase.claims_of_admitted) bounded⟩
  exact ⟨fun entry member => admitted _ (holds.1 entry member), admitted _ holds.2⟩

/-- A second task is turned away at a limit of one, and its Counter is given back. -/
def crowded : List Action :=
  [.dispatch, .loadEnded 0, .construct 0, .checkLimit 0, .nextPage 0 .url, .redispatch 0,
    .loadEnded 1, .construct 1, .checkLimit 1, .destroy 1]

theorem crawls_bounded_crowded :
    ∃ past s, Transition.Run (step 1) State.init past s ∧
      Transition.Always (fun s => s.ongoing = s.tasks.countP Phase.holdsCounter ∧
        s.tasks.countP Phase.admitted ≤ 1) past s := by
  have possible : (Transition.replay (step 1) [] State.init crowded).isSome = true := by decide
  have run := Transition.Run.of_replay .start (Option.some_get possible).symm
  exact ⟨_, _, run, crawls_bounded 1 run⟩

/-! ### Setting `ended_` -/

/-- While a task is about to set `ended_`, which is possible from the moment its
`release()` returned one, no other admitted task is in flight. -/
def EndsAlone (s : State) : Prop :=
  .released 1 ∈ s.tasks → ∀ phase ∈ s.tasks, phase.admitted = false

/-- A step that sets `ended_` in a task finds no admitted task in flight. -/
def SetsEndedAlone (s : State) : Action → Prop
  | .storeEnded task =>
    s.tasks[task]? = some (.released 1) → ∀ phase ∈ s.tasks, phase.admitted = false
  | _ => True

/-- A step that sets `ended_` in a task finds no Counter held, so that the task was the last
one with a Counter. -/
def SetsEndedLast (s : State) : Action → Prop
  | .storeEnded task =>
    s.tasks[task]? = some (.released 1) → ∀ phase ∈ s.tasks, phase.holdsCounter = false
  | _ => True

/-- The condition on a step: a task without a URL does not release its Counter while
exactly one other is held and an admitted task holds it, and no task passes the limit
check while another is about to set `ended_`. -/
def Guarded (max : Nat) (s : State) : Action → Prop
  | .release task => s.ongoing = 2 → ∀ other phase, other ≠ task →
      s.tasks[other]? = some phase → phase.admitted = false
  | .checkLimit task => ∀ count, s.tasks[task]? = some (.counted count) → count < max →
      .released 1 ∉ s.tasks
  | _ => True

/-- The stronger condition: a task without a URL does not release its Counter while exactly
one other is held. -/
def LeavesNone (s : State) : Action → Prop
  | .release _ => s.ongoing ≠ 2
  | _ => True

private theorem mem_append_calls {calls tasks : List Phase} {phase : Phase}
    (few : AtMostOneCall calls) (member : phase ∈ tasks ++ calls) :
    phase ∈ tasks ∨ phase = .called := by
  rcases few with rfl | rfl
  · rw [List.append_nil] at member
    exact .inl member
  · simpa using member

/-- Whoever is about to set `ended_` was so before, or moved just now. -/
private theorem mem_released {s s' : State} {task : Nat} {next : Phase} {calls : List Phase}
    (few : AtMostOneCall calls) (tasks : s'.tasks = s.tasks.set task next ++ calls)
    (released : .released 1 ∈ s'.tasks) : .released 1 ∈ s.tasks ∨ next = .released 1 := by
  rw [tasks] at released
  rcases mem_append_calls few released with inside | equal
  · exact (List.mem_or_eq_of_mem_set inside).imp_right Eq.symm
  · cases equal

/-- A move that neither releases nor admits keeps the property. -/
private theorem endsAlone_of_quiet {s s' : State} {task : Nat} {phase next : Phase}
    {calls : List Phase} (alone : EndsAlone s) (current : s.tasks[task]? = some phase)
    (few : AtMostOneCall calls) (tasks : s'.tasks = s.tasks.set task next ++ calls)
    (not_released : next ≠ .released 1)
    (not_admitted : next.admitted = true → phase.admitted = true) :
    EndsAlone s' := by
  intro released other member
  have before := (mem_released few tasks released).resolve_right not_released
  rw [tasks] at member
  rcases mem_append_calls few member with inside | rfl
  · rcases List.mem_or_eq_of_mem_set inside with earlier | rfl
    · exact alone before other earlier
    · -- the moved task was admitted before, against what held there
      rw [Bool.eq_false_iff]
      intro admitted
      have clash := alone before phase (List.mem_of_getElem? current)
      rw [not_admitted admitted] at clash
      cases clash
  · -- a new call is not admitted yet
    rfl

private theorem endsAlone_release {s s' : State} {task : Nat} {calls : List Phase}
    (alone : EndsAlone s) (current : s.tasks[task]? = some .exhausted) (few : AtMostOneCall calls)
    (tasks : s'.tasks = s.tasks.set task (.released (s.ongoing - 1)) ++ calls) :
    EndsAlone s' ↔ (s.ongoing = 2 → ∀ other phase, other ≠ task →
      s.tasks[other]? = some phase → phase.admitted = false) := by
  obtain ⟨bound, _⟩ := List.getElem?_eq_some_iff.mp current
  constructor
  · intro alone' two other phase different present
    have own : .released 1 ∈ s'.tasks := by
      rw [tasks, two]
      exact List.mem_append_left _ (List.mem_set bound _)
    refine alone' own phase ?_
    rw [tasks]
    refine List.mem_append_left _ (List.mem_of_getElem? (i := other) ?_)
    rw [List.getElem?_set_ne (Ne.symm different)]
    exact present
  · intro guarded released other member
    -- a task that was about to set `ended_` before would have seen this one admitted
    have two : s.ongoing = 2 := by
      rcases mem_released few tasks released with earlier | own
      · have clash := alone earlier _ (List.mem_of_getElem? current)
        cases clash
      · have left := Phase.released.inj own
        omega
    rw [tasks] at member
    rcases mem_append_calls few member with inside | rfl
    · obtain ⟨index, within, rfl⟩ := List.mem_iff_getElem.mp inside
      rw [List.getElem_set]
      split
      · rfl
      next different =>
        rw [List.length_set] at within
        exact guarded two index _ (Ne.symm different) (List.getElem?_eq_getElem within)
    · rfl

private theorem endsAlone_accept {s s' : State} {task count : Nat} {calls : List Phase}
    (current : s.tasks[task]? = some (.counted count)) (few : AtMostOneCall calls)
    (tasks : s'.tasks = s.tasks.set task .searching ++ calls) :
    EndsAlone s' ↔ .released 1 ∉ s.tasks := by
  obtain ⟨bound, value⟩ := List.getElem?_eq_some_iff.mp current
  have own : .searching ∈ s'.tasks := by
    rw [tasks]
    exact List.mem_append_left _ (List.mem_set bound _)
  constructor
  · intro alone released
    obtain ⟨index, within, equal⟩ := List.mem_iff_getElem.mp released
    have different : task ≠ index := by
      rintro rfl
      rw [value] at equal
      cases equal
    have still : .released 1 ∈ s'.tasks := by
      rw [tasks]
      refine List.mem_append_left _ (List.mem_of_getElem? (i := index) ?_)
      rw [List.getElem?_set_ne different, List.getElem?_eq_getElem within, equal]
    cases alone still _ own
  · intro absent released
    -- neither the task admitted nor a new call is about to set `ended_`
    rcases mem_released few tasks released with earlier | own
    · exact absurd earlier absent
    · cases own

/-- A step keeps the property exactly when it is guarded. -/
theorem step_endsAlone_iff {max : Nat} {s s' : State} {action : Action} (alone : EndsAlone s)
    (taken : step max s action = some s') : EndsAlone s' ↔ Guarded max s action := by
  rcases step_cases taken with
    ⟨task, phase, next, calls, current, moves, few, tasks, _⟩ | ⟨other, calls, few, tasks, _⟩
  · cases moves with
    | release => exact endsAlone_release alone current few tasks
    -- the only step that admits a task
    | accept _ count room =>
      rw [endsAlone_accept current few tasks]
      constructor
      · intro absent _ _ _
        exact absent
      · intro guarded
        exact guarded count current room
    -- nobody is admitted at the limit, where the guard asks nothing
    | reject _ count full =>
      refine iff_of_true (endsAlone_of_quiet alone current few tasks (by simp)
        (by simp [Phase.admitted])) ?_
      intro count' current' room
      rw [current] at current'
      cases current'
      omega
    | _ =>
      exact iff_of_true
        (endsAlone_of_quiet alone current few tasks (by simp) (by simp [Phase.admitted])) trivial
  · -- no task moves: what is new is a call that is not admitted
    have quiet : EndsAlone s' := by
      intro released phase member
      rw [tasks] at released member
      rcases mem_append_calls few released with before | equal
      · rcases mem_append_calls few member with inside | rfl
        · exact alone before phase inside
        · rfl
      · cases equal
    refine iff_of_true quiet ?_
    cases action with
    | release task => exact absurd rfl (other task).1
    | checkLimit task => exact absurd rfl (other task).2
    | _ => trivial

theorem endsAlone_iff {s : State} : EndsAlone s ↔ ∀ action, SetsEndedAlone s action := by
  constructor
  · intro alone action
    cases action with
    | storeEnded task => exact fun current => alone (List.mem_of_getElem? current)
    | _ => trivial
  · intro each released
    obtain ⟨task, bound, current⟩ := List.mem_iff_getElem.mp released
    exact each (.storeEnded task) (by rw [List.getElem?_eq_getElem bound, current])

theorem setsEndedLast_of_unreleased {s : State} (none_released : .released 1 ∉ s.tasks)
    (action : Action) : SetsEndedLast s action := by
  cases action with
  | storeEnded task => exact fun current => absurd (List.mem_of_getElem? current) none_released
  | _ => trivial

theorem release_ongoing {max : Nat} {s s' : State} {task : Nat}
    (taken : step max s (.release task) = some s') : s'.ongoing = s.ongoing - 1 := by
  simp only [step] at taken
  split at taken
  · cases taken
    rfl
  · cases taken

/-- The value one that a task compares with is what `release()` returns while exactly
one other Counter is held. -/
theorem released_one_iff {max : Nat} {s s' : State} {task : Nat} (accounted : Accounted s)
    (taken : step max s (.release task) = some s') :
    s'.tasks[task]? = some (.released 1) ↔ s'.tasks.countP Phase.holdsCounter = 1 := by
  have accounted' := step_accounted accounted taken
  simp only [step] at taken
  split at taken
  next current =>
    obtain ⟨bound, _⟩ := List.getElem?_eq_some_iff.mp current
    cases taken
    rw [← accounted']
    simp [State.move, List.getElem?_set_self bound]
  · cases taken

/-- Nobody comes to set `ended_` exactly when no Counter is released while exactly one other is
held. -/
theorem step_unreleased_iff {max : Nat} {s s' : State} {action : Action}
    (none_released : .released 1 ∉ s.tasks) (taken : step max s action = some s') :
    .released 1 ∉ s'.tasks ↔ LeavesNone s action := by
  rcases step_cases taken with
    ⟨task, phase, next, calls, current, moves, few, tasks, _⟩ | ⟨other, calls, few, tasks, _⟩
  · have quiet (different : next ≠ .released 1) : .released 1 ∉ s'.tasks := fun released =>
      (mem_released few tasks released).elim none_released different
    cases moves with
    -- the only move to the phase in question
    | release =>
      obtain ⟨bound, _⟩ := List.getElem?_eq_some_iff.mp current
      have own : .released (s.ongoing - 1) ∈ s'.tasks := by
        rw [tasks]
        exact List.mem_append_left _ (List.mem_set bound _)
      constructor
      · intro absent two
        rw [two] at own
        exact absent own
      · intro leaves
        have count : s.ongoing - 1 ≠ 1 := by
          simp only [LeavesNone] at leaves
          omega
        exact quiet fun equal => count (Phase.released.inj equal)
    | _ => exact iff_of_true (quiet (by simp)) trivial
  · -- the calls are new, so they have released nothing
    have quiet : .released 1 ∉ s'.tasks := by
      intro released
      rw [tasks] at released
      rcases mem_append_calls few released with before | equal
      · exact none_released before
      · cases equal
    refine iff_of_true quiet ?_
    cases action with
    | release task => exact absurd rfl (other task).1
    | _ => trivial

/-- Where nobody but the last task with a Counter can set `ended_`, nobody comes to set it: the
value one says that one other Counter is left. -/
theorem unreleased_of_last {max : Nat} {past : List (State × Action)} {s : State}
    (run : Transition.Run (step max) State.init past s)
    (last : Transition.Always (fun s => ∀ action, SetsEndedLast s action) past s) :
    Transition.Always (fun s => .released 1 ∉ s.tasks) past s := by
  induction run with
  | start => exact ⟨fun _ member => absurd member List.not_mem_nil, List.not_mem_nil⟩
  | @next past s s' action earlier taken ih =>
    obtain ⟨before, after⟩ := Transition.Always.extend.mp last
    have none_released := ih before
    refine Transition.Always.extend.mpr ⟨none_released, ?_⟩
    rw [step_unreleased_iff none_released.2 taken]
    cases action with
    | release task =>
      -- the one Counter that is left is still held when `ended_` is set
      intro two
      have initially : Accounted State.init := rfl
      have accounted : Accounted s := earlier.invariant initially fun _ _ _ => step_accounted
      have one : s'.tasks.countP Phase.holdsCounter = 1 := by
        rw [← step_accounted accounted taken, release_ongoing taken, two]
      have own := (released_one_iff accounted taken).mpr one
      obtain ⟨phase, member, holds⟩ :=
        List.countP_pos_iff.mp (show 0 < s'.tasks.countP Phase.holdsCounter by omega)
      rw [after (.storeEnded task) own phase member] at holds
      cases holds
    | _ => trivial

/-- Along every run whose steps are guarded, no task sets `ended_` while another admitted task is in
flight; and the condition is exact for the run together with whatever step comes next in any of its
states. That nobody else holds a Counter, either, is so exactly when no Counter is released
while one other is held, and then no task sets `ended_` at all. -/
theorem ended_set_alone_iff (max : Nat) {past : List (State × Action)} {s : State}
    (run : Transition.Run (step max) State.init past s) :
    (Transition.EachStep (Guarded max) past → Transition.EachStep SetsEndedAlone past) ∧
    (Transition.Always (fun s => ∀ action, SetsEndedAlone s action) past s ↔
      Transition.EachStep (Guarded max) past) ∧
    (Transition.Always (fun s => ∀ action, SetsEndedLast s action) past s ↔
      Transition.EachStep LeavesNone past) ∧
    (Transition.EachStep LeavesNone past →
      Transition.Always (fun s => .released 1 ∉ s.tasks) past s) := by
  -- each condition is exact for one step, and therefore for runs
  have guarded : Transition.Always EndsAlone past s ↔ Transition.EachStep (Guarded max) past := by
    refine run.always_iff_eachStep (fun _ => True) ⟨trivial, ?_⟩
      (fun _ _ _ _ _ => trivial) (fun _ _ _ _ alone taken => step_endsAlone_iff alone taken)
    intro released
    cases released
  have unreleased : Transition.Always (fun s => .released 1 ∉ s.tasks) past s ↔
      Transition.EachStep LeavesNone past := by
    refine run.always_iff_eachStep (fun _ => True) ⟨trivial, List.not_mem_nil⟩
      (fun _ _ _ _ _ => trivial) (fun _ _ _ _ absent taken => step_unreleased_iff absent taken)
  simp only [← endsAlone_iff]
  refine ⟨fun each entry member => ?_, guarded, ?_, unreleased.mpr⟩
  · exact endsAlone_iff.mp ((guarded.mpr each).1 entry member) entry.2
  · rw [← unreleased]
    refine ⟨unreleased_of_last run, fun absent => ⟨fun entry member => ?_, ?_⟩⟩
    · exact setsEndedLast_of_unreleased (absent.1 entry member)
    · exact setsEndedLast_of_unreleased absent.2

/-- The only admitted task finds no URL while one that was turned away still has its Counter. -/
def outlived : List Action :=
  [.dispatch, .loadEnded 0, .construct 0, .checkLimit 0, .dispatch, .loadEnded 1, .construct 1,
    .checkLimit 1, .nextPage 0 .noUrl, .release 0, .storeEnded 0]

theorem ended_set_alone_iff_outlived :
    ∃ past s, Transition.Run (step 1) State.init past s ∧ s.ended = true ∧
      s.tasks = [.done, .rejected] ∧
      (Transition.EachStep (Guarded 1) past → Transition.EachStep SetsEndedAlone past) ∧
      (Transition.Always (fun s => ∀ action, SetsEndedAlone s action) past s ↔
        Transition.EachStep (Guarded 1) past) ∧
      (Transition.Always (fun s => ∀ action, SetsEndedLast s action) past s ↔
        Transition.EachStep LeavesNone past) ∧
      (Transition.EachStep LeavesNone past →
        Transition.Always (fun s => .released 1 ∉ s.tasks) past s) := by
  have possible : (Transition.replay (step 1) [] State.init outlived).isSome = true := by decide
  have run := Transition.Run.of_replay .start (Option.some_get possible).symm
  exact ⟨_, _, run, rfl, rfl, ended_set_alone_iff 1 run⟩

/-- One task crawls a page while a second finds no URL and sets `ended_`. -/
def overtaken : List Action :=
  [.dispatch, .loadEnded 0, .construct 0, .checkLimit 0, .nextPage 0 .url, .redispatch 0,
    .loadEnded 1, .construct 1, .checkLimit 1, .nextPage 1 .noUrl, .release 1, .storeEnded 1]

theorem ended_set_while_crawling :
    ∃ past s, Transition.Run (step 2) State.init past s ∧ s.ended = true ∧
      s.tasks = [.crawling, .done] ∧ ¬Transition.EachStep SetsEndedAlone past := by
  have possible : (Transition.replay (step 2) [] State.init overtaken).isSome = true := by decide
  refine ⟨_, _, Transition.Run.of_replay .start (Option.some_get possible).symm, rfl, rfl, ?_⟩
  intro each
  have last := each (⟨1, false, [.crawling, .released 1], .sleeping 0⟩, .storeEnded 1) (by decide)
  exact absurd (last rfl .crawling (by decide)) (by decide)

end Dispatch

end Tlgs
