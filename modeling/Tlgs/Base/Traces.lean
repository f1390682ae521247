import Tlgs.Base.Substitution

/-!
# What programs leave on record

A postcondition of the record that a program leaves, for what its operations may answer, and what it
says of the programs of a pool. A program that calls certain operations only takes no other steps.
-/
namespace Interactive

open Program

variable {Op : Type} {Answer : Op → Type} {Err α β σ ι : Type}

/-- The program ends with a record that is as the postcondition says. -/
def Leaves (answers : (op : Op) → Except Err (Answer op) → Prop)
    (post : Except Err α → List (Event Op Answer Err) → Prop) :
    Program Op Answer Err α → List (Event Op Answer Err) → Prop
  | .done outcome, log => post outcome log
  | .call op next, log =>
    ∀ answer, answers op answer → Leaves answers post (next answer) (log ++ [⟨op, answer⟩])

section Rules

variable {answers : (op : Op) → Except Err (Answer op) → Prop}
  {post : Except Err α → List (Event Op Answer Err) → Prop} {p : Program Op Answer Err α}
  {log : List (Event Op Answer Err)}

/-- One operation, by what it is answered. -/
theorem leaves_perform_bind {op : Op} {f : Answer op → Program Op Answer Err α}
    (goes : ∀ a, answers op (.ok a) → Leaves answers post (f a) (log ++ [⟨op, .ok a⟩]))
    (fails : ∀ x, answers op (.error x) → post (.error x) (log ++ [⟨op, .error x⟩])) :
    Leaves answers post (perform op >>= f) log := by
  intro answer may
  cases answer with
  | ok a => exact goes a may
  | error x => exact fails x may

theorem Leaves.mono {post' : Except Err α → List (Event Op Answer Err) → Prop}
    (leaves : Leaves answers post p log)
    (weaker : ∀ outcome log, post outcome log → post' outcome log) :
    Leaves answers post' p log := by
  induction p generalizing log with
  | done outcome => exact weaker outcome log leaves
  | call op next ih => exact fun answer may => ih answer (leaves answer may)

/-- A part of a program, and what follows each of its values. -/
theorem Leaves.bind {f : α → Program Op Answer Err β}
    {post' : Except Err β → List (Event Op Answer Err) → Prop} (first : Leaves answers post p log)
    (rest : ∀ a log, post (.ok a) log → Leaves answers post' (f a) log)
    (failed : ∀ x log, post (.error x) log → post' (.error x) log) :
    Leaves answers post' (p >>= f) log := by
  change Leaves answers post' (p.bind f) log
  induction p generalizing log with
  | done outcome =>
    cases outcome with
    | ok a => exact rest a log first
    | error x => exact failed x log first
  | call op next ih => exact fun answer may => ih answer (first answer may)

theorem Leaves.tryCatch {handler : Err → Program Op Answer Err α}
    {post' : Except Err α → List (Event Op Answer Err) → Prop} (body : Leaves answers post p log)
    (kept : ∀ a log, post (.ok a) log → post' (.ok a) log)
    (caught : ∀ x log, post (.error x) log → Leaves answers post' (handler x) log) :
    Leaves answers post' (p.tryCatch handler) log := by
  induction p generalizing log with
  | done outcome =>
    cases outcome with
    | ok a => exact kept a log body
    | error x => exact caught x log body
  | call op next ih => exact fun answer may => ih answer (body answer may)

/-- What the operations of a program keep of the record. -/
theorem leaves_of_within {ops : Op → Prop} {kept : List (Event Op Answer Err) → Prop}
    (within : Within ops (fun _ => True) p)
    (keeps : ∀ log op answer, ops op → kept log → kept (log ++ [⟨op, answer⟩])) (holds : kept log) :
    Leaves answers (fun _ log => kept log) p log := by
  induction p generalizing log with
  | done outcome => exact holds
  | call op next ih =>
    intro answer _
    exact ih answer (within.2 answer fun _ _ => trivial) (keeps log op answer within.1 holds)

end Rules

/-! ### In a pool -/

section Pools

variable {step : Step Op Answer Err σ} {ambient : σ → σ → Prop} {body : ι → Program Op Answer Err α}
  {init : σ} {pool : Pool Op Answer Err α σ ι}

/-- A program that has ended has left the record that it leaves on its own. -/
theorem Reachable.leaves {answers : (op : Op) → Except Err (Answer op) → Prop}
    {post : ι → Except Err α → List (Event Op Answer Err) → Prop}
    (answered : ∀ s op answer after, step s op answer after → answers op answer)
    (starts : ∀ label, Leaves answers (post label) (body label) [])
    (reached : Reachable step ambient body init pool) {thread : Thread Op Answer Err α ι}
    (member : thread ∈ pool.threads) {outcome : Except Err α}
    (ended : thread.program = .done outcome) :
    post thread.label outcome thread.log := by
  have each := reached.each (fun label => Leaves answers (post label)) starts
    (fun label op next log s answer after leaves taken =>
      leaves answer (answered s op answer after taken)) thread member
  rwa [ended] at each

/-- The next operation of a program that calls certain operations only. -/
theorem Reachable.allowed_call {ops : Op → Prop}
    (calls : ∀ label, Meets (fun _ _ => True) ops (fun _ => True) (body label)) {s : σ}
    {front back : List (Thread Op Answer Err α ι)} {label : ι} {op : Op}
    {next : Except Err (Answer op) → Program Op Answer Err α} {log : List (Event Op Answer Err)}
    (reached : Reachable step ambient body init ⟨s, front ++ ⟨label, .call op next, log⟩ :: back⟩) :
    ops op := by
  have each := reached.each (fun _ p _ => Meets (fun _ _ => True) ops (fun _ => True) p) calls
    (fun label op next log s answer after meets _ => meets.2 answer trivial)
  exact (each ⟨label, .call op next, log⟩ (List.mem_append_right _ List.mem_cons_self)).1

/-- The steps of programs that call certain operations only. -/
theorem Reachable.allowed {ops : Op → Prop}
    (calls : ∀ label, Meets (fun _ _ => True) ops (fun _ => True) (body label))
    (reached : Reachable step ambient body init pool) :
    Reachable (fun s op answer after => ops op ∧ step s op answer after) ambient body
      init pool := by
  induction reached with
  | start => exact .start
  | next earlier taken ih =>
    refine ih.next ?_
    cases taken with
    | spawn label => exact .spawn label
    | call taken => exact .call ⟨earlier.allowed_call calls, taken⟩
    | ambient moved => exact .ambient moved

/-- A pool whose records are good was reached by good steps: nothing is taken off a record. -/
theorem Reachable.of_recorded (good : Event Op Answer Err → Prop)
    (reached : Reachable step ambient body init pool)
    (recorded : ∀ thread ∈ pool.threads, ∀ event ∈ thread.log, good event) :
    Reachable (fun s op answer after => good ⟨op, answer⟩ ∧ step s op answer after) ambient body
      init pool := by
  induction reached with
  | start => exact .start
  | next _ taken ih =>
    cases taken with
    | spawn label =>
      refine (ih fun thread member => ?_).next (.spawn label)
      exact recorded thread (List.mem_append_left _ member)
    | @call s after front back label op next log answer taken =>
      -- the thread that took the step has one event more now
      have own := recorded ⟨label, next answer, log ++ [⟨op, answer⟩]⟩
        (List.mem_append_right _ List.mem_cons_self)
      have last : good ⟨op, answer⟩ := own _ (List.mem_append_right _ List.mem_cons_self)
      refine (ih fun thread member event inside => ?_).next (.call ⟨last, taken⟩)
      rcases List.mem_append.mp member with before | others
      · exact recorded thread (List.mem_append_left _ before) event inside
      · rcases List.mem_cons.mp others with rfl | behind
        · exact own event (List.mem_append_left _ inside)
        · refine recorded thread (List.mem_append_right _ ?_) event inside
          exact List.mem_cons_of_mem _ behind
    | ambient moved => exact (ih recorded).next (.ambient moved)

end Pools

end Interactive
