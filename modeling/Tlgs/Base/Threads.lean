import Tlgs.Base.Program

/-!
# Programs side by side

Any number of programs run over one shared state. Each call of an operation is one step,
and steps of different programs, and of the surroundings, come in any order. A program is
judged on its own: between two of its operations the others may do what the guarantee
they give each other allows.
-/
namespace Interactive

open Program

variable {Op : Type} {Answer : Op → Type} {Err α β σ ι : Type}

/-- A program under way: what it was started for, what is left of it and what it has done. -/
structure Thread (Op : Type) (Answer : Op → Type) (Err α ι : Type) where
  label : ι
  program : Program Op Answer Err α
  log : List (Event Op Answer Err)

structure Pool (Op : Type) (Answer : Op → Type) (Err α σ ι : Type) where
  state : σ
  threads : List (Thread Op Answer Err α ι)

inductive PoolStep (step : Step Op Answer Err σ) (ambient : σ → σ → Prop)
    (body : ι → Program Op Answer Err α) :
    Pool Op Answer Err α σ ι → Pool Op Answer Err α σ ι → Prop
  | spawn {s : σ} {threads : List (Thread Op Answer Err α ι)} (label : ι) :
      PoolStep step ambient body ⟨s, threads⟩ ⟨s, threads ++ [⟨label, body label, []⟩]⟩
  | call {s after : σ} {front back : List (Thread Op Answer Err α ι)} {label : ι} {op : Op}
      {next : Except Err (Answer op) → Program Op Answer Err α} {log : List (Event Op Answer Err)}
      {answer : Except Err (Answer op)} (taken : step s op answer after) :
      PoolStep step ambient body ⟨s, front ++ ⟨label, .call op next, log⟩ :: back⟩
        ⟨after, front ++ ⟨label, next answer, log ++ [⟨op, answer⟩]⟩ :: back⟩
  | ambient {s after : σ} {threads : List (Thread Op Answer Err α ι)} (moved : ambient s after) :
      PoolStep step ambient body ⟨s, threads⟩ ⟨after, threads⟩

/-- The pools that a run from `init` without a program reaches. -/
inductive Reachable (step : Step Op Answer Err σ) (ambient : σ → σ → Prop)
    (body : ι → Program Op Answer Err α) (init : σ) : Pool Op Answer Err α σ ι → Prop
  | start : Reachable step ambient body init ⟨init, []⟩
  | next {pool pool' : Pool Op Answer Err α σ ι} (earlier : Reachable step ambient body init pool)
      (taken : PoolStep step ambient body pool pool') : Reachable step ambient body init pool'

/-- A pool can run one of its programs to the end while the others wait. -/
theorem Reachable.of_runs {step : Step Op Answer Err σ} {ambient : σ → σ → Prop}
    {body : ι → Program Op Answer Err α} {init : σ} {front back : List (Thread Op Answer Err α ι)}
    {label : ι} {p : Program Op Answer Err α} {r after : Recorded Op Answer Err σ}
    {outcome : Except Err α}
    (reached : Reachable step ambient body init ⟨r.state, front ++ ⟨label, p, r.log⟩ :: back⟩)
    (run : Runs (record step) p r outcome after) :
    Reachable step ambient body init
      ⟨after.state, front ++ ⟨label, .done outcome, after.log⟩ :: back⟩ := by
  induction p generalizing r with
  | done outcome' =>
    obtain ⟨rfl, rfl⟩ := run
    exact reached
  | call op next ih =>
    obtain ⟨answer, middle, ⟨taken, written⟩, rest⟩ := run
    refine ih answer ?_ rest
    rw [written]
    exact reached.next (.call taken)

/-- A run that goes on from a pool, with the events of its programs in their order. -/
inductive Continues (step : Step Op Answer Err σ) (ambient : σ → σ → Prop)
    (body : ι → Program Op Answer Err α) (pool : Pool Op Answer Err α σ ι) :
    List (Event Op Answer Err) → Pool Op Answer Err α σ ι → Prop
  | here : Continues step ambient body pool [] pool
  | spawn {events : List (Event Op Answer Err)} {s : σ} {threads : List (Thread Op Answer Err α ι)}
      (earlier : Continues step ambient body pool events ⟨s, threads⟩) (label : ι) :
      Continues step ambient body pool events ⟨s, threads ++ [⟨label, body label, []⟩]⟩
  | call {events : List (Event Op Answer Err)} {s after : σ}
      {front back : List (Thread Op Answer Err α ι)} {label : ι} {op : Op}
      {next : Except Err (Answer op) → Program Op Answer Err α} {log : List (Event Op Answer Err)}
      {answer : Except Err (Answer op)}
      (earlier : Continues step ambient body pool events
        ⟨s, front ++ ⟨label, .call op next, log⟩ :: back⟩) (taken : step s op answer after) :
      Continues step ambient body pool (events ++ [⟨op, answer⟩])
        ⟨after, front ++ ⟨label, next answer, log ++ [⟨op, answer⟩]⟩ :: back⟩
  | ambient {events : List (Event Op Answer Err)} {s after : σ}
      {threads : List (Thread Op Answer Err α ι)}
      (earlier : Continues step ambient body pool events ⟨s, threads⟩) (moved : ambient s after) :
      Continues step ambient body pool events ⟨after, threads⟩

section Continues

variable {step : Step Op Answer Err σ} {ambient : σ → σ → Prop} {body : ι → Program Op Answer Err α}
  {init : σ} {pool later : Pool Op Answer Err α σ ι} {events : List (Event Op Answer Err)}

theorem Reachable.continue (reached : Reachable step ambient body init pool)
    (continues : Continues step ambient body pool events later) :
    Reachable step ambient body init later := by
  induction continues with
  | here => exact reached
  | spawn _ label ih => exact ih.next (.spawn label)
  | call _ taken ih => exact ih.next (.call taken)
  | ambient _ moved ih => exact ih.next (.ambient moved)

/-- Every run goes on from its start. -/
theorem Reachable.continues (reached : Reachable step ambient body init pool) :
    ∃ events, Continues step ambient body ⟨init, []⟩ events pool := by
  induction reached with
  | start => exact ⟨[], .here⟩
  | next _ taken ih =>
    obtain ⟨events, continues⟩ := ih
    cases taken with
    | spawn label => exact ⟨events, continues.spawn label⟩
    | call taken => exact ⟨_, continues.call taken⟩
    | ambient moved => exact ⟨events, continues.ambient moved⟩

end Continues

/-! ### What a program does among others -/

section Safe

variable (step : Step Op Answer Err σ) (inv : σ → Prop) (keeps : σ → σ → Prop)
  (post : Except Err α → List (Event Op Answer Err) → Prop)

/-- From whatever state the others leave, each operation keeps the invariant and what the
programs rely on, and the program ends as the postcondition says. -/
def Safe : Program Op Answer Err α → σ → List (Event Op Answer Err) → Prop
  | .done outcome, _, log => post outcome log
  | .call op next, s, log => ∀ now answer after, keeps s now → inv now → step now op answer after →
      (inv after ∧ keeps now after) ∧ Safe (next answer) after (log ++ [⟨op, answer⟩])

variable {step inv keeps post} {s now : σ} {log : List (Event Op Answer Err)}

theorem Safe.later (trans : ∀ a b c, keeps a b → keeps b c → keeps a c)
    {p : Program Op Answer Err α} (safe : Safe step inv keeps post p s log) (moved : keeps s now) :
    Safe step inv keeps post p now log := by
  cases p with
  | done outcome => exact safe
  | call op next =>
    intro later answer after kept holds taken
    exact safe later answer after (trans _ _ _ moved kept) holds taken

theorem Safe.weaken {post' : Except Err α → List (Event Op Answer Err) → Prop}
    {p : Program Op Answer Err α} (safe : Safe step inv keeps post p s log)
    (weaker : ∀ outcome log, post outcome log → post' outcome log) :
    Safe step inv keeps post' p s log := by
  induction p generalizing s log with
  | done outcome => exact weaker outcome log safe
  | call op next ih =>
    intro now answer after kept holds taken
    obtain ⟨holds', rest⟩ := safe now answer after kept holds taken
    exact ⟨holds', ih answer rest⟩

/-- One operation and what follows its answer. -/
theorem safe_perform_bind {op : Op} {f : Answer op → Program Op Answer Err α} :
    Safe step inv keeps post (perform op >>= f) s log ↔
      ∀ now answer after, keeps s now → inv now → step now op answer after →
        (inv after ∧ keeps now after) ∧
          Safe step inv keeps post ((Program.done answer).bind f) after (log ++ [⟨op, answer⟩]) :=
  Iff.rfl

@[simp] theorem bind_ok {a : α} {f : α → Program Op Answer Err β} :
    (Program.done (.ok a) : Program Op Answer Err α).bind f = f a := rfl

@[simp] theorem bind_error {x : Err} {f : α → Program Op Answer Err β} :
    (Program.done (.error x) : Program Op Answer Err α).bind f = .done (.error x) := rfl

@[simp] theorem safe_pure {a : α} :
    Safe step inv keeps post (pure a) s log ↔ post (.ok a) log := Iff.rfl

@[simp] theorem safe_done {outcome : Except Err α} :
    Safe step inv keeps post (.done outcome) s log ↔ post outcome log := Iff.rfl

end Safe

/-! ### What holds of every pool -/

section Pools

variable {step : Step Op Answer Err σ} {ambient : σ → σ → Prop} {body : ι → Program Op Answer Err α}
  {init : σ} {inv : σ → Prop} {keeps : σ → σ → Prop}
  {post : ι → Except Err α → List (Event Op Answer Err) → Prop}

/-- The invariant holds, and every program that has started is safe from here on. -/
def PoolSafe (step : Step Op Answer Err σ) (inv : σ → Prop) (keeps : σ → σ → Prop)
    (post : ι → Except Err α → List (Event Op Answer Err) → Prop)
    (pool : Pool Op Answer Err α σ ι) : Prop :=
  inv pool.state ∧ ∀ thread ∈ pool.threads,
    Safe step inv keeps (post thread.label) thread.program pool.state thread.log

theorem poolSafe_step {pool pool' : Pool Op Answer Err α σ ι} (refl : ∀ s, keeps s s)
    (trans : ∀ a b c, keeps a b → keeps b c → keeps a c)
    (moves : ∀ s after, inv s → ambient s after → inv after ∧ keeps s after)
    (starts : ∀ s label, inv s → Safe step inv keeps (post label) (body label) s [])
    (safe : PoolSafe step inv keeps post pool) (taken : PoolStep step ambient body pool pool') :
    PoolSafe step inv keeps post pool' := by
  obtain ⟨holds, each⟩ := safe
  cases taken with
  | spawn label =>
    refine ⟨holds, fun thread member => ?_⟩
    rcases List.mem_append.mp member with earlier | added
    · exact each thread earlier
    · rw [List.mem_singleton.mp added]
      exact starts _ label holds
  | @call s after front back label op next log answer taken =>
    have own := each ⟨label, .call op next, log⟩ (List.mem_append_right _ List.mem_cons_self)
    obtain ⟨⟨holds', kept⟩, rest⟩ := own s answer after (refl s) holds taken
    refine ⟨holds', fun thread member => ?_⟩
    -- the thread that took the step goes on safely, and the others see one step more
    rcases List.mem_append.mp member with before | others
    · exact (each thread (List.mem_append_left _ before)).later trans kept
    · rcases List.mem_cons.mp others with rfl | behind
      · exact rest
      · exact (each thread (List.mem_append_right _ (List.mem_cons_of_mem _ behind))).later trans
          kept
  | ambient moved =>
    obtain ⟨holds', kept⟩ := moves _ _ holds moved
    exact ⟨holds', fun thread member => (each thread member).later trans kept⟩

/-- Programs that are safe each on its own are safe together, in any interleaving. -/
theorem Reachable.poolSafe {pool : Pool Op Answer Err α σ ι} (refl : ∀ s, keeps s s)
    (trans : ∀ a b c, keeps a b → keeps b c → keeps a c)
    (moves : ∀ s after, inv s → ambient s after → inv after ∧ keeps s after)
    (starts : ∀ s label, inv s → Safe step inv keeps (post label) (body label) s [])
    (initially : inv init) (reached : Reachable step ambient body init pool) :
    PoolSafe step inv keeps post pool := by
  induction reached with
  | start => exact ⟨initially, fun _ member => absurd member List.not_mem_nil⟩
  | next _ taken ih => exact poolSafe_step refl trans moves starts ih taken

/-- A program that has ended has ended as its postcondition says. -/
theorem PoolSafe.ended {pool : Pool Op Answer Err α σ ι} (safe : PoolSafe step inv keeps post pool)
    {thread : Thread Op Answer Err α ι} (member : thread ∈ pool.threads) {outcome : Except Err α}
    (ended : thread.program = .done outcome) : post thread.label outcome thread.log := by
  have own := safe.2 thread member
  rwa [ended] at own

/-- What every step and every move keeps holds in every state. -/
theorem Reachable.invariant {pool : Pool Op Answer Err α σ ι}
    (steps : ∀ s op answer after, inv s → step s op answer after → inv after)
    (moves : ∀ s after, inv s → ambient s after → inv after) (initially : inv init)
    (reached : Reachable step ambient body init pool) : inv pool.state := by
  induction reached with
  | start => exact initially
  | next _ taken ih =>
    cases taken with
    | spawn label => exact ih
    | call taken => exact steps _ _ _ _ ih taken
    | ambient moved => exact moves _ _ ih moved

/-- What every step of a program keeps of what is left of it and what it has done. -/
theorem Reachable.each (left : ι → Program Op Answer Err α → List (Event Op Answer Err) → Prop)
    {pool : Pool Op Answer Err α σ ι} (starts : ∀ label, left label (body label) [])
    (steps : ∀ label op next log s answer after, left label (.call op next) log →
      step s op answer after → left label (next answer) (log ++ [⟨op, answer⟩]))
    (reached : Reachable step ambient body init pool) :
    ∀ thread ∈ pool.threads, left thread.label thread.program thread.log := by
  induction reached with
  | start => exact fun _ member => absurd member List.not_mem_nil
  | next _ taken ih =>
    cases taken with
    | spawn label =>
      intro thread member
      rcases List.mem_append.mp member with before | added
      · exact ih thread before
      · cases List.mem_singleton.mp added
        exact starts label
    -- only the thread that called something has a new program and log
    | @call s after front back label op next log answer taken =>
      intro thread member
      rcases List.mem_append.mp member with before | others
      · exact ih thread (List.mem_append_left _ before)
      · rcases List.mem_cons.mp others with rfl | behind
        · exact steps label op next log s answer after
            (ih ⟨label, .call op next, log⟩ (List.mem_append_right _ List.mem_cons_self)) taken
        · exact ih thread (List.mem_append_right _ (List.mem_cons_of_mem _ behind))
    | ambient moved => exact ih

/-- What is known of every step is known of every event on record, as long as nothing that follows
undoes it. -/
theorem Reachable.recorded (known : σ → Prop) (good : σ → Event Op Answer Err → Prop)
    {pool : Pool Op Answer Err α σ ι}
    (holds : ∀ pool, Reachable step ambient body init pool → known pool.state)
    (written : ∀ s op answer after, known s → step s op answer after → good after ⟨op, answer⟩)
    (steps : ∀ s op answer after event, step s op answer after → good s event → good after event)
    (moves : ∀ s after event, ambient s after → good s event → good after event)
    (reached : Reachable step ambient body init pool) :
    ∀ thread ∈ pool.threads, ∀ event ∈ thread.log, good pool.state event := by
  induction reached with
  | start => exact fun _ member => absurd member List.not_mem_nil
  | next earlier taken ih =>
    have now := holds _ earlier
    cases taken with
    | spawn label =>
      intro thread member event inside
      rcases List.mem_append.mp member with before | added
      · exact ih thread before event inside
      · cases List.mem_singleton.mp added
        cases inside
    | @call s after front back label op next log answer taken =>
      have others : ∀ thread, thread ∈ front ∨ thread ∈ back →
          ∀ event ∈ thread.log, good after event := by
        intro thread member event inside
        refine steps s op answer after event taken (ih thread (List.mem_append.mpr ?_) event inside)
        exact member.imp_right (List.mem_cons_of_mem _)
      intro thread member event inside
      rcases List.mem_append.mp member with before | behind
      · exact others thread (.inl before) event inside
      · rcases List.mem_cons.mp behind with rfl | back
        · -- the thread that took the step
          rcases List.mem_append.mp inside with earlier | last
          · exact steps s op answer after event taken
              (ih ⟨label, .call op next, log⟩ (List.mem_append_right _ List.mem_cons_self)
                event earlier)
          · cases List.mem_singleton.mp last
            exact written s op answer after now taken
        · exact others thread (.inr back) event inside
    | ambient moved =>
      exact fun thread member event inside => moves _ _ event moved (ih thread member event inside)

end Pools

end Interactive
