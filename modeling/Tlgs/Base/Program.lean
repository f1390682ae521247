/-!
# Interactive programs

A program calls operations whose answers come from outside, and may fail or catch a
failure. What an operation does is a relation between the state before it, its answer
and the state after it, so that one program has many runs. A postcondition speaks of the
outcome and of the final state, and the weakest precondition of a program follows its
structure.
-/
namespace Interactive

inductive Program (Op : Type) (Answer : Op → Type) (Err α : Type)
  | done (outcome : Except Err α)
  | call (op : Op) (next : Except Err (Answer op) → Program Op Answer Err α)

variable {Op : Type} {Answer : Op → Type} {Err α β σ : Type}

namespace Program

def bind (p : Program Op Answer Err α) (f : α → Program Op Answer Err β) :
    Program Op Answer Err β :=
  match p with
  | done (.ok a) => f a
  | done (.error x) => done (.error x)
  | call op next => call op fun answer => (next answer).bind f

def tryCatch (p : Program Op Answer Err α) (handler : Err → Program Op Answer Err α) :
    Program Op Answer Err α :=
  match p with
  | done (.ok a) => done (.ok a)
  | done (.error x) => handler x
  | call op next => call op fun answer => (next answer).tryCatch handler

instance : Monad (Program Op Answer Err) where
  pure a := done (.ok a)
  bind := bind

def throw (x : Err) : Program Op Answer Err α := done (.error x)

/-- Call one operation; a failing answer is a failure of the program. -/
def perform (op : Op) : Program Op Answer Err (Answer op) :=
  call op done

end Program

open Program

abbrev Step (Op : Type) (Answer : Op → Type) (Err σ : Type) :=
  σ → (op : Op) → Except Err (Answer op) → σ → Prop

variable (step : Step Op Answer Err σ)

/-! ### Runs and weakest preconditions -/

def Runs : Program Op Answer Err α → σ → Except Err α → σ → Prop
  | .done outcome, s, result, after => result = outcome ∧ after = s
  | .call op next, s, result, after =>
    ∃ answer middle, step s op answer middle ∧ Runs (next answer) middle result after

def wp : Program Op Answer Err α → (Except Err α → σ → Prop) → σ → Prop
  | .done outcome, post, s => post outcome s
  | .call op next, post, s => ∀ answer after, step s op answer after → wp (next answer) post after

/-- The postcondition of a program that `f` follows. -/
def Then (f : α → Program Op Answer Err β) (post : Except Err β → σ → Prop) :
    Except Err α → σ → Prop
  | .ok a, s => wp step (f a) post s
  | .error x, s => post (.error x) s

/-- The postcondition of a program whose failures go to `handler`. -/
def Else (handler : Err → Program Op Answer Err α) (post : Except Err α → σ → Prop) :
    Except Err α → σ → Prop
  | .ok a, s => post (.ok a) s
  | .error x, s => wp step (handler x) post s

variable {step} {p : Program Op Answer Err α} {post : Except Err α → σ → Prop} {s : σ}

@[simp] theorem then_ok {f : α → Program Op Answer Err β} {post : Except Err β → σ → Prop} {a : α} :
    Then step f post (.ok a) s ↔ wp step (f a) post s := Iff.rfl

@[simp] theorem then_error {f : α → Program Op Answer Err β} {post : Except Err β → σ → Prop}
    {x : Err} : Then step f post (.error x) s ↔ post (.error x) s := Iff.rfl

theorem wp_iff_runs :
    wp step p post s ↔ ∀ result after, Runs step p s result after → post result after := by
  induction p generalizing s with
  | done outcome =>
    constructor
    · rintro holds _ _ ⟨rfl, rfl⟩
      exact holds
    · intro all
      exact all outcome s ⟨rfl, rfl⟩
  | call op next ih =>
    -- a run is one step and a run of what follows its answer
    constructor
    · rintro holds result after ⟨answer, middle, taken, rest⟩
      exact (ih answer).mp (holds answer middle taken) result after rest
    · intro all answer middle taken
      exact (ih answer).mpr fun result after rest => all result after ⟨answer, middle, taken, rest⟩

theorem wp_mono {post' : Except Err α → σ → Prop}
    (weaker : ∀ result after, post result after → post' result after) (holds : wp step p post s) :
    wp step p post' s :=
  wp_iff_runs.mpr fun result after run =>
    weaker result after (wp_iff_runs.mp holds result after run)

theorem wp_and {post' : Except Err α → σ → Prop} (left : wp step p post s)
    (right : wp step p post' s) :
    wp step p (fun result after => post result after ∧ post' result after) s :=
  wp_iff_runs.mpr fun result after run =>
    ⟨wp_iff_runs.mp left result after run, wp_iff_runs.mp right result after run⟩

@[simp] theorem wp_pure {a : α} :
    wp step (pure a : Program Op Answer Err α) post s ↔ post (.ok a) s := Iff.rfl

@[simp] theorem wp_perform {op : Op} {post : Except Err (Answer op) → σ → Prop} :
    wp step (perform op) post s ↔ ∀ answer after, step s op answer after → post answer after :=
  Iff.rfl

theorem wp_bind {f : α → Program Op Answer Err β} {post : Except Err β → σ → Prop} :
    wp step (p >>= f) post s ↔ wp step p (Then step f post) s := by
  change wp step (p.bind f) post s ↔ _
  induction p generalizing s with
  | done outcome => cases outcome <;> exact Iff.rfl
  | call op next ih =>
    constructor
    · intro holds answer after taken
      exact (ih answer).mp (holds answer after taken)
    · intro holds answer after taken
      exact (ih answer).mpr (holds answer after taken)

theorem wp_perform_bind {op : Op} {f : Answer op → Program Op Answer Err β}
    {post : Except Err β → σ → Prop} :
    wp step (perform op >>= f) post s ↔
      ∀ answer after, step s op answer after → Then step f post answer after :=
  wp_bind.trans wp_perform

theorem wp_tryCatch {handler : Err → Program Op Answer Err α} :
    wp step (p.tryCatch handler) post s ↔ wp step p (Else step handler post) s := by
  induction p generalizing s with
  | done outcome => cases outcome <;> exact Iff.rfl
  | call op next ih =>
    constructor
    · intro holds answer after taken
      exact (ih answer).mp (holds answer after taken)
    · intro holds answer after taken
      exact (ih answer).mpr (holds answer after taken)

/-- A run of a sequence is a run of its first part that fails, or one of both parts. -/
theorem runs_bind {f : α → Program Op Answer Err β} {result : Except Err β} {after : σ} :
    Runs step (p >>= f) s result after ↔
      (∃ a middle, Runs step p s (.ok a) middle ∧ Runs step (f a) middle result after) ∨
      ∃ x, Runs step p s (.error x) after ∧ result = .error x := by
  change Runs step (p.bind f) s result after ↔ _
  induction p generalizing s with
  | done outcome =>
    cases outcome with
    | ok a =>
      -- the first part takes no step, so the whole run is one of `f a`
      constructor
      · intro run
        exact .inl ⟨a, s, ⟨rfl, rfl⟩, run⟩
      · rintro (⟨_, _, ⟨equal, rfl⟩, run⟩ | ⟨_, ⟨equal, _⟩, _⟩)
        · cases equal
          exact run
        · cases equal
    | error x =>
      -- the failure passes `f` by
      constructor
      · rintro ⟨rfl, rfl⟩
        exact .inr ⟨x, ⟨rfl, rfl⟩, rfl⟩
      · rintro (⟨_, _, ⟨equal, _⟩, _⟩ | ⟨_, ⟨equal, rfl⟩, rfl⟩)
        · cases equal
        · cases equal
          exact ⟨rfl, rfl⟩
  | call op next ih =>
    constructor
    · rintro ⟨answer, middle, taken, run⟩
      rcases (ih answer).mp run with ⟨a, between, first, rest⟩ | ⟨x, first, rfl⟩
      · exact .inl ⟨a, between, ⟨answer, middle, taken, first⟩, rest⟩
      · exact .inr ⟨x, ⟨answer, middle, taken, first⟩, rfl⟩
    · rintro (⟨a, between, ⟨answer, middle, taken, first⟩, rest⟩ | ⟨x,
        ⟨answer, middle, taken, first⟩, rfl⟩)
      · exact ⟨answer, middle, taken, (ih answer).mpr (.inl ⟨a, between, first, rest⟩)⟩
      · exact ⟨answer, middle, taken, (ih answer).mpr (.inr ⟨x, first, rfl⟩)⟩

/-- A run with a handler is a run without a failure, or one that fails and a run of the
handler. -/
theorem runs_tryCatch {handler : Err → Program Op Answer Err α} {result : Except Err α}
    {after : σ} :
    Runs step (p.tryCatch handler) s result after ↔
      (∃ a, result = .ok a ∧ Runs step p s (.ok a) after) ∨
      ∃ x middle, Runs step p s (.error x) middle ∧ Runs step (handler x) middle result after := by
  induction p generalizing s with
  | done outcome =>
    cases outcome with
    | ok a =>
      constructor
      · rintro ⟨rfl, rfl⟩
        exact .inl ⟨a, rfl, rfl, rfl⟩
      · rintro (⟨_, rfl, equal, rfl⟩ | ⟨_, _, ⟨equal, _⟩, _⟩)
        · exact ⟨equal, rfl⟩
        · cases equal
    | error x =>
      constructor
      · intro run
        exact .inr ⟨x, s, ⟨rfl, rfl⟩, run⟩
      · rintro (⟨_, _, equal, _⟩ | ⟨_, _, ⟨equal, rfl⟩, run⟩)
        · cases equal
        · cases equal
          exact run
  | call op next ih =>
    -- the step is the same on both sides
    constructor
    · rintro ⟨answer, middle, taken, run⟩
      rcases (ih answer).mp run with ⟨a, rfl, rest⟩ | ⟨x, between, first, rest⟩
      · exact .inl ⟨a, rfl, answer, middle, taken, rest⟩
      · exact .inr ⟨x, between, ⟨answer, middle, taken, first⟩, rest⟩
    · rintro (⟨a, rfl, answer, middle, taken, rest⟩ | ⟨x, between,
        ⟨answer, middle, taken, first⟩, rest⟩)
      · exact ⟨answer, middle, taken, (ih answer).mpr (.inl ⟨a, rfl, rest⟩)⟩
      · exact ⟨answer, middle, taken, (ih answer).mpr (.inr ⟨x, between, first, rest⟩)⟩

@[simp] theorem runs_perform {op : Op} {result : Except Err (Answer op)} {after : σ} :
    Runs step (perform op : Program Op Answer Err (Answer op)) s result after ↔
      step s op result after := by
  constructor
  · rintro ⟨answer, middle, taken, rfl, rfl⟩
    exact taken
  · intro taken
    exact ⟨result, after, taken, rfl, rfl⟩

/-- What every step preserves, a run preserves. -/
theorem runs_invariant (invariant : σ → Prop)
    (preserved : ∀ s op answer after, invariant s → step s op answer after → invariant after)
    {result : Except Err α} {after : σ} (run : Runs step p s result after) (holds : invariant s) :
    invariant after := by
  induction p generalizing s with
  | done outcome =>
    obtain ⟨_, rfl⟩ := run
    exact holds
  | call op next ih =>
    obtain ⟨answer, middle, taken, rest⟩ := run
    exact ih answer rest (preserved s op answer middle holds taken)

/-- Some operations, one after the other, of whichever programs. -/
inductive Steps (step : Step Op Answer Err σ) (s : σ) : σ → Prop
  | none : Steps step s s
  | next {middle after : σ} {op : Op} {answer : Except Err (Answer op)}
    (earlier : Steps step s middle)
      (taken : step middle op answer after) : Steps step s after

theorem Steps.invariant (invariant : σ → Prop)
    (preserved : ∀ s op answer after, invariant s → step s op answer after → invariant after)
    {after : σ} (steps : Steps step s after) (holds : invariant s) : invariant after := by
  induction steps with
  | none => exact holds
  | next _ taken ih => exact preserved _ _ _ _ ih taken

/-! ### The operations a program can call and the failures it can end in -/

/-- Every operation the program calls is among `ops`, and every failure it ends in is
among `errs` as long as the failures of its operations are. -/
def Within (ops : Op → Prop) (errs : Err → Prop) : Program Op Answer Err α → Prop
  | .done (.ok _) => True
  | .done (.error x) => errs x
  | .call op next => ops op ∧ ∀ answer, (∀ x, answer = .error x → errs x) →
      Within ops errs (next answer)

variable {ops : Op → Prop} {errs : Err → Prop}

@[simp] theorem within_pure {a : α} :
    Within ops errs (pure a : Program Op Answer Err α) := trivial

theorem within_perform {op : Op} (allowed : ops op) :
    Within ops errs (perform op : Program Op Answer Err (Answer op)) := by
  refine ⟨allowed, fun answer failures => ?_⟩
  cases answer with
  | ok a => trivial
  | error x => exact failures x rfl

theorem within_bind {f : α → Program Op Answer Err β} (first : Within ops errs p)
    (rest : ∀ a, Within ops errs (f a)) : Within ops errs (p >>= f) := by
  change Within ops errs (p.bind f)
  induction p with
  | done outcome =>
    cases outcome with
    | ok a => exact rest a
    | error x => exact first
  | call op next ih => exact ⟨first.1, fun answer failures => ih answer (first.2 answer failures)⟩

theorem within_tryCatch {handler : Err → Program Op Answer Err α} (body : Within ops errs p)
    (caught : ∀ x, Within ops errs (handler x)) : Within ops errs (p.tryCatch handler) := by
  induction p with
  | done outcome =>
    cases outcome with
    | ok a => trivial
    | error x => exact caught x
  | call op next ih => exact ⟨body.1, fun answer failures => ih answer (body.2 answer failures)⟩

theorem within_mono {ops' : Op → Prop} (more : ∀ op, ops op → ops' op)
    (within : Within ops errs p) :
    Within ops' errs p := by
  induction p with
  | done outcome =>
    cases outcome with
    | ok a => trivial
    | error x => exact within
  | call op next ih =>
    exact ⟨more op within.1, fun answer failures => ih answer (within.2 answer failures)⟩

/-- What every operation of a program preserves, the program preserves. -/
theorem wp_of_within (invariant : σ → Prop)
    (failures : ∀ s op x after, step s op (.error x) after → errs x)
    (preserved : ∀ s op answer after, ops op → invariant s → step s op answer after →
      invariant after)
    (within : Within ops errs p) (holds : invariant s) :
    wp step p (fun result after => invariant after ∧ ∀ x, result = .error x → errs x) s := by
  induction p generalizing s with
  | done outcome =>
    refine ⟨holds, fun x failed => ?_⟩
    subst failed
    exact within
  | call op next ih =>
    intro answer after taken
    refine ih answer (within.2 answer ?_) (preserved s op answer after within.1 holds taken)
    rintro x rfl
    exact failures s op x after taken

/-! ### Recorded runs -/

structure Event (Op : Type) (Answer : Op → Type) (Err : Type) where
  op : Op
  answer : Except Err (Answer op)

/-- A state together with the operations called so far. -/
structure Recorded (Op : Type) (Answer : Op → Type) (Err σ : Type) where
  state : σ
  log : List (Event Op Answer Err)

/-- The step that also writes the record. -/
def record (step : Step Op Answer Err σ) : Step Op Answer Err (Recorded Op Answer Err σ) :=
  fun s op answer after =>
    step s.state op answer after.state ∧ after.log = s.log ++ [⟨op, answer⟩]

/-- The record of a run continues the record it starts with, by operations the program
can call. -/
theorem log_of_runs {r after : Recorded Op Answer Err σ} {result : Except Err α}
    (within : Within ops (fun _ => True) p) (run : Runs (record step) p r result after) :
    ∃ events, after.log = r.log ++ events ∧ ∀ event ∈ events, ops event.op := by
  induction p generalizing r with
  | done outcome =>
    obtain ⟨_, rfl⟩ := run
    exact ⟨[], (List.append_nil _).symm, fun _ member => absurd member List.not_mem_nil⟩
  | call op next ih =>
    obtain ⟨answer, middle, ⟨_, written⟩, rest⟩ := run
    obtain ⟨events, later, all⟩ := ih answer (within.2 answer fun _ _ => trivial) rest
    refine ⟨⟨op, answer⟩ :: events, ?_, ?_⟩
    · rw [later, written, List.append_assoc, List.singleton_append]
    · intro event member
      rcases List.mem_cons.mp member with rfl | member
      · exact within.1
      · exact all event member

section Records

variable {property : Event Op Answer Err → Prop} {r after : Recorded Op Answer Err σ}

/-- One more operation in a record of which every entry has a property. -/
theorem all_of_record {op : Op} {answer : Except Err (Answer op)}
    (taken : record step r op answer after) (all : ∀ event ∈ r.log, property event)
    (last : property ⟨op, answer⟩) : ∀ event ∈ after.log, property event := by
  rw [taken.2]
  intro event member
  rcases List.mem_append.mp member with before | added
  · exact all event before
  · cases List.mem_singleton.mp added
    exact last

/-- A program keeps a property of all entries that the operations it can call have. -/
theorem wp_all_record (within : Within ops (fun _ => True) p)
    (each : ∀ op answer, ops op → property ⟨op, answer⟩) (all : ∀ event ∈ r.log, property event) :
    wp (record step) p (fun _ after => ∀ event ∈ after.log, property event) r := by
  refine wp_mono (fun _ _ holds => holds.1) (wp_of_within
    (fun s => ∀ event ∈ s.log, property event) (fun _ _ _ _ _ => trivial) ?_ within all)
  intro s op answer next allowed kept taken
  exact all_of_record taken kept (each op answer allowed)

end Records

/-- What a run does does not depend on the record it continues. -/
theorem runs_from_empty {r after : Recorded Op Answer Err σ} {result : Except Err α}
    (run : Runs (record step) p r result after) :
    ∃ events, after.log = r.log ++ events ∧
      Runs (record step) p ⟨r.state, []⟩ result ⟨after.state, events⟩ := by
  -- the induction needs the statement for every record to start from
  suffices ∀ log, ∃ events, after.log = r.log ++ events ∧
      Runs (record step) p ⟨r.state, log⟩ result ⟨after.state, log ++ events⟩ from this []
  induction p generalizing r with
  | done outcome =>
    obtain ⟨rfl, rfl⟩ := run
    intro log
    exact ⟨[], (List.append_nil _).symm, rfl, by rw [List.append_nil]⟩
  | call op next ih =>
    obtain ⟨answer, middle, ⟨taken, written⟩, rest⟩ := run
    intro log
    obtain ⟨events, later, again⟩ := ih answer rest (log ++ [⟨op, answer⟩])
    refine ⟨⟨op, answer⟩ :: events, ?_, answer, ⟨middle.state, log ++ [⟨op, answer⟩]⟩,
      ⟨taken, rfl⟩, ?_⟩
    · rw [later, written, List.append_assoc, List.singleton_append]
    · rwa [List.append_assoc, List.singleton_append] at again

/-- A run only adds to the record. -/
theorem log_extends {r after : Recorded Op Answer Err σ} {result : Except Err α}
    (run : Runs (record step) p r result after) : ∃ events, after.log = r.log ++ events := by
  obtain ⟨events, log, _⟩ := runs_from_empty run
  exact ⟨events, log⟩

/-- A run whose record is as given is one of steps that are as given. -/
theorem runs_record_where
    {given : List (Event Op Answer Err) → (op : Op) → Except Err (Answer op) → Prop}
    {r after : Recorded Op Answer Err σ} {result : Except Err α}
    (run : Runs (record step) p r result after)
    (each : ∀ before event rest, after.log = before ++ event :: rest →
      given before event.op event.answer) :
    Runs (fun r op answer after => record step r op answer after ∧ given r.log op answer) p r result
      after := by
  induction p generalizing r with
  | done outcome => exact run
  | call op next ih =>
    obtain ⟨answer, middle, taken, rest⟩ := run
    obtain ⟨events, log⟩ := log_extends rest
    have written : after.log = r.log ++ ⟨op, answer⟩ :: events := by
      rw [log, taken.2, List.append_assoc, List.singleton_append]
    exact ⟨answer, middle, ⟨taken, each _ _ _ written⟩, ih answer rest⟩

/-! ### Failures on record -/

def Event.Succeeded (event : Event Op Answer Err) : Prop := ∃ a, event.answer = .ok a

def Succeeded (log : List (Event Op Answer Err)) : Prop := ∀ event ∈ log, event.Succeeded

/-- The last operation failed, and it was the first one to fail. -/
def FailsAt (log : List (Event Op Answer Err)) (op : Op) : Prop :=
  ∃ done x, Succeeded done ∧ log = done ++ [⟨op, .error x⟩]

theorem succeeded_nil : Succeeded ([] : List (Event Op Answer Err)) :=
  fun _ member => absurd member List.not_mem_nil

theorem Succeeded.append {log : List (Event Op Answer Err)} (succeeded : Succeeded log) {op : Op}
    (a : Answer op) : Succeeded (log ++ [⟨op, .ok a⟩]) := by
  intro event member
  rcases List.mem_append.mp member with before | last
  · exact succeeded event before
  · cases List.mem_singleton.mp last
    exact ⟨a, rfl⟩

theorem succeeded_append {log events : List (Event Op Answer Err)} (first : Succeeded log)
    (second : Succeeded events) : Succeeded (log ++ events) :=
  List.forall_mem_append.mpr ⟨first, second⟩

theorem not_succeeded_append {log events : List (Event Op Answer Err)} (failed : ¬Succeeded log) :
    ¬Succeeded (log ++ events) :=
  fun all => failed (List.forall_mem_append.mp all).1

theorem not_succeeded_error {op : Op} {x : Err} :
    ¬(⟨op, .error x⟩ : Event Op Answer Err).Succeeded := by
  rintro ⟨a, equal⟩
  cases equal

/-- In a record without a failure, an operation at the start of a program succeeded. -/
theorem runs_perform_ok {op : Op} {f : Answer op → Program Op Answer Err α}
    {r after : Recorded Op Answer Err σ} {result : Except Err α}
    (run : Runs (record step) (perform op >>= f) r result after) (succeeded : Succeeded after.log) :
    ∃ a middle, record step r op (.ok a) middle ∧ Runs (record step) (f a) middle result after := by
  rcases runs_bind.mp run with ⟨a, middle, taken, rest⟩ | ⟨x, failed, _⟩
  · exact ⟨a, middle, runs_perform.mp taken, rest⟩
  · have written := (runs_perform.mp failed).2
    rw [written] at succeeded
    exact absurd (succeeded _ (List.mem_append_right _ List.mem_cons_self)) not_succeeded_error

/-- A record with a failure has a first one. -/
theorem exists_first_failure {log : List (Event Op Answer Err)} (failed : ¬Succeeded log) :
    ∃ done op x rest, log = done ++ ⟨op, .error x⟩ :: rest ∧ Succeeded done := by
  induction log with
  | nil => exact absurd succeeded_nil failed
  | cons event log ih =>
    obtain ⟨op, x | a⟩ := event
    · exact ⟨[], op, x, log, rfl, succeeded_nil⟩
    · obtain ⟨done, op', x, rest, rfl, succeeded⟩ :=
        ih fun all => failed (List.forall_mem_cons.mpr ⟨⟨a, rfl⟩, all⟩)
      exact ⟨⟨op, .ok a⟩ :: done, op', x, rest, rfl, List.forall_mem_cons.mpr ⟨⟨a, rfl⟩, succeeded⟩⟩

instance (event : Event Op Answer Err) : Decidable event.Succeeded :=
  match event with
  | ⟨_, .ok a⟩ => .isTrue ⟨a, rfl⟩
  | ⟨_, .error _⟩ => .isFalse not_succeeded_error

instance (log : List (Event Op Answer Err)) : Decidable (Succeeded log) :=
  inferInstanceAs (Decidable (∀ event ∈ log, event.Succeeded))

/-- The first element that does not satisfy a predicate cuts a list in one way only. -/
theorem append_cons_unique {γ : Type} {holds : γ → Prop} {front front' back back' : List γ}
    {x x' : γ} (all : ∀ y ∈ front, holds y) (all' : ∀ y ∈ front', holds y) (first : ¬holds x)
    (first' : ¬holds x') (same : front ++ x :: back = front' ++ x' :: back') :
    front = front' ∧ x = x' ∧ back = back' := by
  induction front generalizing front' with
  | nil =>
    cases front' with
    | nil =>
      cases same
      exact ⟨rfl, rfl, rfl⟩
    | cons y front' =>
      -- the cut comes later in one list, which has `x` among the elements before it
      cases same
      exact absurd (all' _ List.mem_cons_self) first
  | cons y front ih =>
    cases front' with
    | nil =>
      cases same
      exact absurd (all _ List.mem_cons_self) first'
    | cons y' front' =>
      obtain ⟨rfl, rest⟩ := List.cons.inj same
      obtain ⟨rfl, equal, rest⟩ := ih (fun z member => all z (List.mem_cons_of_mem _ member))
        (fun z member => all' z (List.mem_cons_of_mem _ member)) rest
      exact ⟨rfl, equal, rest⟩

/-! ### Executing a program -/

/-- Run a program against an environment that gives all answers. -/
def simulate (respond : σ → (op : Op) → Except Err (Answer op) × σ) :
    Program Op Answer Err α → σ → Except Err α × σ
  | .done outcome, s => (outcome, s)
  | .call op next, s => simulate respond (next (respond s op).1) (respond s op).2

theorem runs_simulate {respond : σ → (op : Op) → Except Err (Answer op) × σ}
    (possible : ∀ s op, step s op (respond s op).1 (respond s op).2)
    {p : Program Op Answer Err α} {s : σ} {result : Except Err α}
    (ends : (simulate respond p s).1 = result) :
    Runs step p s result (simulate respond p s).2 := by
  subst ends
  induction p generalizing s with
  | done outcome => exact ⟨rfl, rfl⟩
  | call op next ih => exact ⟨_, _, possible s op, ih _⟩

/-- The environment that also writes the record. -/
def recording (respond : σ → (op : Op) → Except Err (Answer op) × σ)
    (r : Recorded Op Answer Err σ) (op : Op) : Except Err (Answer op) × Recorded Op Answer Err σ :=
  ((respond r.state op).1, ⟨(respond r.state op).2, r.log ++ [⟨op, (respond r.state op).1⟩]⟩)

theorem record_recording {respond : σ → (op : Op) → Except Err (Answer op) × σ}
    (possible : ∀ s op, step s op (respond s op).1 (respond s op).2)
    (r : Recorded Op Answer Err σ) (op : Op) :
    record step r op (recording respond r op).1 (recording respond r op).2 :=
  ⟨possible r.state op, rfl⟩

end Interactive
