/-!
# Runs of a labelled step function

A run records every step it took together with the state the step was taken in, so
that a property of all states visited and a condition on all steps taken are both
statements about the record.
-/
namespace Transition

variable {State Action : Type}

inductive Run (step : State → Action → Option State) (init : State) :
    List (State × Action) → State → Prop
  | start : Run step init [] init
  | next {past : List (State × Action)} {state after : State} {action : Action}
      (earlier : Run step init past state) (taken : step state action = some after) :
      Run step init (past ++ [(state, action)]) after

variable {step : State → Action → Option State} {init : State}
  {past : List (State × Action)} {state : State}

/-- A property of every state a run visits. -/
def Always (property : State → Prop) (past : List (State × Action)) (state : State) : Prop :=
  (∀ entry ∈ past, property entry.1) ∧ property state

/-- A condition on every step a run takes. -/
def EachStep (condition : State → Action → Prop) (past : List (State × Action)) : Prop :=
  ∀ entry ∈ past, condition entry.1 entry.2

theorem Always.extend {property : State → Prop} {after : State} {action : Action} :
    Always property (past ++ [(state, action)]) after ↔
      Always property past state ∧ property after := by
  simp only [Always, List.forall_mem_append, List.forall_mem_singleton]

theorem EachStep.extend {condition : State → Action → Prop} {action : Action} :
    EachStep condition (past ++ [(state, action)]) ↔
      EachStep condition past ∧ condition state action := by
  simp only [EachStep, List.forall_mem_append, List.forall_mem_singleton]

/-- An invariant holds in every state of every run. -/
theorem Run.invariant {property : State → Prop} (initially : property init)
    (preserved : ∀ state action after,
      property state → step state action = some after → property after)
    (run : Run step init past state) : property state := by
  induction run with
  | start => exact initially
  | next _ taken ih => exact preserved _ _ _ ih taken

theorem Run.always {property : State → Prop} (initially : property init)
    (preserved : ∀ state action after,
      property state → step state action = some after → property after)
    (run : Run step init past state) : Always property past state := by
  induction run with
  | start => exact ⟨fun entry member => absurd member List.not_mem_nil, initially⟩
  | next _ taken ih => exact Always.extend.mpr ⟨ih, preserved _ _ _ ih.2 taken⟩

/-- When a condition decides, step by step and under an invariant, whether a property
survives, it decides along a run whether the property holds throughout. -/
theorem Run.always_iff_eachStep (invariant : State → Prop) {property : State → Prop}
    {condition : State → Action → Prop} (initially : invariant init ∧ property init)
    (preserved : ∀ state action after,
      invariant state → step state action = some after → invariant after)
    (decides : ∀ state action after, invariant state → property state →
      step state action = some after → (property after ↔ condition state action))
    (run : Run step init past state) :
    Always property past state ↔ EachStep condition past := by
  induction run with
  | start =>
    refine ⟨fun _ entry member => absurd member List.not_mem_nil, fun _ => ⟨?_, initially.2⟩⟩
    exact fun entry member => absurd member List.not_mem_nil
  | next earlier taken ih =>
    rw [Always.extend, EachStep.extend, ← ih]
    -- the invariant holds before the step, so `decides` speaks of it
    have holds := earlier.invariant initially.1 preserved
    constructor
    · rintro ⟨before, after⟩
      exact ⟨before, (decides _ _ _ holds before.2 taken).mp after⟩
    · rintro ⟨before, allowed⟩
      exact ⟨before, (decides _ _ _ holds before.2 taken).mpr allowed⟩

/-- Where each step of a kind keeps an invariant and lowers a measure, the measure bounds the
number of steps. -/
theorem Run.length_le {invariant : State → Prop} {condition : State → Action → Prop}
    (measure : State → Nat) (initially : invariant init)
    (lowers : ∀ state action after, invariant state → condition state action →
      step state action = some after → invariant after ∧ measure after < measure state)
    (run : Run step init past state) (each : EachStep condition past) :
    invariant state ∧ past.length + measure state ≤ measure init := by
  induction run with
  | start => exact ⟨initially, by simp⟩
  | next _ taken ih =>
    obtain ⟨before, allowed⟩ := EachStep.extend.mp each
    obtain ⟨holds, bound⟩ := ih before
    obtain ⟨holds', lower⟩ := lowers _ _ _ holds allowed taken
    refine ⟨holds', ?_⟩
    rw [List.length_append, List.length_singleton]
    omega

/-- The run that a list of actions describes. -/
def replay (step : State → Action → Option State) (past : List (State × Action)) (state : State) :
    List Action → Option (List (State × Action) × State)
  | [] => some (past, state)
  | action :: actions =>
    match step state action with
    | none => none
    | some after => replay step (past ++ [(state, action)]) after actions

theorem Run.of_replay {actions : List Action} {past' : List (State × Action)} {state' : State}
    (run : Run step init past state)
    (replayed : replay step past state actions = some (past', state')) :
    Run step init past' state' := by
  induction actions generalizing past state with
  | nil =>
    cases replayed
    exact run
  | cons action actions ih =>
    simp only [replay] at replayed
    split at replayed
    · cases replayed
    next taken => exact ih (run.next taken) replayed

end Transition
