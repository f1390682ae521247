import Tlgs.Base.Transition
import Mathlib.Data.List.Basic

/-!
# Objects that keep what they print

An object prints its value and keeps the text, to return it the next time. A text that stands for
none is kept at first. A change of the value clears the text or leaves alone what is printed. Over
any calls on any number of objects, copies among them, the objects behave as if nothing was kept.
-/
namespace Memo

structure Object (Value Text : Type) where
  value : Value
  kept : Text
  deriving DecidableEq, Repr

variable {Value Text Change : Type} [DecidableEq Text] (render : Value → Text) (none_ : Text)

/-- The text that is kept, or else the rendering, which is kept from now on. -/
def print (object : Object Value Text) : Text × Object Value Text :=
  if object.kept ≠ none_ then (object.kept, object)
  else (render object.value, { object with kept := render object.value })

/-- A change that clears the text. -/
def clear (change : Value → Value) (object : Object Value Text) : Object Value Text :=
  ⟨change object.value, none_⟩

/-- A change that keeps the text. -/
def keep (change : Value → Value) (object : Object Value Text) : Object Value Text :=
  { object with value := change object.value }

/-- The text that is kept is of this value. -/
def Coherent (object : Object Value Text) : Prop :=
  object.kept = none_ ∨ object.kept = render object.value

variable {render none_} {object : Object Value Text}

theorem print_current (coherent : Coherent render none_ object) :
    (print render none_ object).1 = render object.value := by
  simp only [print]
  split
  next kept => exact coherent.resolve_left kept
  next => rfl

@[simp] theorem print_value : (print render none_ object).2.value = object.value := by
  simp only [print]
  split <;> rfl

theorem coherent_print (coherent : Coherent render none_ object) :
    Coherent render none_ (print render none_ object).2 := by
  simp only [print]
  split
  next => exact coherent
  next => exact .inr rfl

omit [DecidableEq Text] in
theorem coherent_clear (change : Value → Value) :
    Coherent render none_ (clear none_ change object) :=
  .inl rfl

omit [DecidableEq Text] in
theorem coherent_keep {change : Value → Value}
    (same : render (change object.value) = render object.value)
    (coherent : Coherent render none_ object) : Coherent render none_ (keep change object) := by
  rcases coherent with none | kept
  · exact .inl none
  · exact .inr (kept.trans same.symm)

/-! ### Calls on several objects -/

/-- What is done to the objects, each named by its number in the order of construction. -/
inductive Call (Value Change : Type)
  | construct (value : Value)
  | copy (source : Nat)
  | assign (target source : Nat)
  | change (object : Nat) (change : Change)
  | print (object : Nat)
  deriving DecidableEq, Repr

abbrev Pool (Value Text : Type) := List (Object Value Text)

def values (pool : Pool Value Text) : List Value := pool.map Object.value

variable (render none_)

/-- One call; `none` when there is no such object. -/
def step (act : Change → Object Value Text → Object Value Text) (pool : Pool Value Text) :
    Call Value Change → Option (Pool Value Text)
  | .construct value => some (pool ++ [⟨value, none_⟩])
  | .copy source => (pool[source]?).map fun object => pool ++ [object]
  | .assign target source =>
    if target < pool.length then (pool[source]?).map fun object => pool.set target object else none
  | .change i change => (pool[i]?).map fun object => pool.set i (act change object)
  | .print i => (pool[i]?).map fun object => pool.set i (print render none_ object).2

/-- What a call returns. -/
def answer (pool : Pool Value Text) : Call Value Change → Option Text
  | .print i => (pool[i]?).map fun object => (print render none_ object).1
  | _ => none

/-- The same calls on objects that keep no text. -/
def plainStep (apply : Change → Value → Value) (values : List Value) :
    Call Value Change → Option (List Value)
  | .construct value => some (values ++ [value])
  | .copy source => (values[source]?).map fun value => values ++ [value]
  | .assign target source =>
    if target < values.length then (values[source]?).map fun value =>
      values.set target value else none
  | .change i change => (values[i]?).map fun value => values.set i (apply change value)
  | .print i => (values[i]?).map fun _ => values

def plainAnswer (values : List Value) : Call Value Change → Option Text
  | .print i => (values[i]?).map render
  | _ => none

/-- Every change does to the value what it is meant to do, and keeps no text that is out of date. -/
structure Sound (act : Change → Object Value Text → Object Value Text)
    (apply : Change → Value → Value) : Prop where
  value : ∀ change object, (act change object).value = apply change object.value
  coherent : ∀ change object, Coherent render none_ object →
    Coherent render none_ (act change object)

def AllCoherent (pool : Pool Value Text) : Prop := ∀ object ∈ pool, Coherent render none_ object

variable {render none_} {act : Change → Object Value Text → Object Value Text}
  {apply : Change → Value → Value} {pool after : Pool Value Text} {call : Call Value Change}

omit [DecidableEq Text] in
theorem AllCoherent.set (coherent : AllCoherent render none_ pool) (i : Nat)
    {object : Object Value Text} (new : Coherent render none_ object) :
    AllCoherent render none_ (pool.set i object) := by
  intro other member
  rcases List.mem_or_eq_of_mem_set member with old | rfl
  · exact coherent other old
  · exact new

omit [DecidableEq Text] in
theorem AllCoherent.append (coherent : AllCoherent render none_ pool) {object : Object Value Text}
    (new : Coherent render none_ object) : AllCoherent render none_ (pool ++ [object]) := by
  intro other member
  rcases List.mem_append.mp member with old | last
  · exact coherent other old
  · cases List.mem_singleton.mp last
    exact new

omit [DecidableEq Text] in
theorem AllCoherent.of_getElem? (coherent : AllCoherent render none_ pool) {i : Nat}
    {object : Object Value Text} (found : pool[i]? = some object) : Coherent render none_ object :=
  coherent object (List.mem_of_getElem? found)

/-- A call keeps every object coherent. -/
theorem step_coherent (sound : Sound render none_ act apply)
    (coherent : AllCoherent render none_ pool)
    (taken : step render none_ act pool call = some after) : AllCoherent render none_ after := by
  cases call with
  | construct value =>
    cases taken
    exact coherent.append (.inl rfl)
  | copy source =>
    obtain ⟨object, found, rfl⟩ := Option.map_eq_some_iff.mp taken
    exact coherent.append (coherent.of_getElem? found)
  | assign target source =>
    simp only [step] at taken
    split at taken
    · obtain ⟨object, found, rfl⟩ := Option.map_eq_some_iff.mp taken
      exact coherent.set target (coherent.of_getElem? found)
    · cases taken
  | change i change =>
    obtain ⟨object, found, rfl⟩ := Option.map_eq_some_iff.mp taken
    exact coherent.set i (sound.coherent change object (coherent.of_getElem? found))
  | print i =>
    obtain ⟨object, found, rfl⟩ := Option.map_eq_some_iff.mp taken
    exact coherent.set i (coherent_print (coherent.of_getElem? found))

omit [DecidableEq Text] in
theorem values_set {i : Nat} {object other : Object Value Text} (found : pool[i]? = some object)
    (same : other.value = object.value) : values (pool.set i other) = values pool := by
  obtain ⟨inside, rfl⟩ := List.getElem?_eq_some_iff.mp found
  rw [values, List.map_set, same, values, ← List.getElem_map Object.value, List.set_getElem_self]
  rwa [List.length_map]

/-- A call does to the values what it does where no text is kept. -/
theorem step_values (sound : Sound render none_ act apply)
    (taken : step render none_ act pool call = some after) :
    plainStep apply (values pool) call = some (values after) := by
  cases call with
  | construct value =>
    cases taken
    simp [plainStep, values]
  | copy source =>
    obtain ⟨object, found, rfl⟩ := Option.map_eq_some_iff.mp taken
    simp [plainStep, values, found]
  | assign target source =>
    simp only [step] at taken
    split at taken
    next inside =>
      obtain ⟨object, found, rfl⟩ := Option.map_eq_some_iff.mp taken
      simp [plainStep, values, found, inside, List.map_set]
    next => cases taken
  | change i change =>
    obtain ⟨object, found, rfl⟩ := Option.map_eq_some_iff.mp taken
    simp [plainStep, values, found, List.map_set, sound.value]
  | print i =>
    -- printing leaves the value of the object as it is
    obtain ⟨object, found, rfl⟩ := Option.map_eq_some_iff.mp taken
    rw [values_set found print_value]
    simp [plainStep, values, found]

theorem answer_current (coherent : AllCoherent render none_ pool) :
    answer render none_ pool call = plainAnswer render (values pool) call := by
  cases call with
  | print i =>
    cases found : pool[i]? with
    | none => simp [answer, plainAnswer, values, found]
    | some object =>
      simp [answer, plainAnswer, values, found, print_current (coherent.of_getElem? found)]
  | _ => rfl

section Runs

variable {past : List (Pool Value Text × Call Value Change)}

/-- In every run, what is printed is the rendering of the value at that time. -/
theorem run_current (sound : Sound render none_ act apply)
    (run : Transition.Run (step render none_ act) [] past pool) :
    AllCoherent render none_ pool ∧
      Transition.EachStep
        (fun pool call => answer render none_ pool call = plainAnswer render (values pool) call)
          past := by
  have always : Transition.Always (AllCoherent render none_) past pool :=
    run.always (fun _ member => absurd member List.not_mem_nil)
      fun _ _ _ coherent taken => step_coherent sound coherent taken
  exact ⟨always.2, fun entry member => answer_current (always.1 entry member)⟩

/-- A run is one of the objects that keep no text. -/
theorem run_values (sound : Sound render none_ act apply)
    (run : Transition.Run (step render none_ act) [] past pool) :
    Transition.Run (plainStep apply) [] (past.map fun entry => (values entry.1, entry.2))
      (values pool) := by
  induction run with
  | start => exact .start
  | next earlier taken ih =>
    rw [List.map_append, List.map_singleton]
    exact ih.next (step_values sound taken)

end Runs

end Memo
