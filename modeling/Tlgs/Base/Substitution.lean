import Tlgs.Base.Threads

/-!
# Operations that are programs themselves

A program whose operations are carried out by programs over other operations is a program
over those. What it calls is judged by what its operations may answer, and that they answer so
is shown for each operation on its own. A program that was judged over a part of the state
keeps what was shown of it when it runs over the whole.
-/
namespace Interactive

open Program

variable {Op Op' : Type} {Answer : Op → Type} {Answer' : Op' → Type} {Err α β σ τ : Type}

namespace Program

/-- Go on with the outcome, be it a value or a failure. -/
def andThen (p : Program Op Answer Err α) (next : Except Err α → Program Op Answer Err β) :
    Program Op Answer Err β :=
  match p with
  | done outcome => next outcome
  | call op rest => call op fun answer => (rest answer).andThen next

/-- Every operation is carried out by a program. -/
def expand (carry : (op : Op) → Program Op' Answer' Err (Answer op)) :
    Program Op Answer Err α → Program Op' Answer' Err α
  | done outcome => done outcome
  | call op next => (carry op).andThen fun answer => (next answer).expand carry

/-- The same operations among others. -/
def lift (inject : Op → Op') :
    Program Op (fun op => Answer' (inject op)) Err α → Program Op' Answer' Err α
  | done outcome => done outcome
  | call op next => call (inject op) fun answer => (next answer).lift inject

end Program

/-! ### What a program calls, by what it is answered -/

/-- As long as its operations are answered as `answers` says, the program calls operations
among `ops` only and ends as `post` says. -/
def Meets (answers : (op : Op) → Except Err (Answer op) → Prop) (ops : Op → Prop)
    (post : Except Err α → Prop) : Program Op Answer Err α → Prop
  | .done outcome => post outcome
  | .call op next => ops op ∧ ∀ answer, answers op answer → Meets answers ops post (next answer)

variable {answers : (op : Op) → Except Err (Answer op) → Prop} {ops : Op → Prop}
  {post : Except Err α → Prop}

@[simp] theorem meets_pure {a : α} :
    Meets answers ops post (pure a : Program Op Answer Err α) ↔ post (.ok a) := Iff.rfl

@[simp] theorem meets_throw {x : Err} :
    Meets answers ops post (throw x : Program Op Answer Err α) ↔ post (.error x) := Iff.rfl

theorem meets_perform {op : Op} {post : Except Err (Answer op) → Prop} :
    Meets answers ops post (perform op) ↔ ops op ∧ ∀ answer, answers op answer → post answer :=
  Iff.rfl

/-- The postcondition of a part that `f` follows. -/
def Before (answers : (op : Op) → Except Err (Answer op) → Prop) (ops : Op → Prop)
    (f : α → Program Op Answer Err β) (post : Except Err β → Prop) : Except Err α → Prop
  | .ok a => Meets answers ops post (f a)
  | .error x => post (.error x)

theorem meets_bind {p : Program Op Answer Err α} {f : α → Program Op Answer Err β}
    {post : Except Err β → Prop} :
    Meets answers ops post (p >>= f) ↔ Meets answers ops (Before answers ops f post) p := by
  change Meets answers ops post (p.bind f) ↔ _
  induction p with
  | done outcome => cases outcome <;> exact Iff.rfl
  | call op next ih => exact and_congr Iff.rfl (forall₂_congr fun answer _ => ih answer)

theorem meets_perform_bind {op : Op} {f : Answer op → Program Op Answer Err α} :
    Meets answers ops post (perform op >>= f) ↔
      ops op ∧ ∀ answer, answers op answer → Before answers ops f post answer :=
  meets_bind.trans meets_perform

theorem Meets.mono {p : Program Op Answer Err α} {post' : Except Err α → Prop}
    (meets : Meets answers ops post p) (weaker : ∀ outcome, post outcome → post' outcome) :
    Meets answers ops post' p := by
  induction p with
  | done outcome => exact weaker outcome meets
  | call op next ih => exact ⟨meets.1, fun answer may => ih answer (meets.2 answer may)⟩

/-- A part of a program, and what follows each of its values. -/
theorem Meets.bind {p : Program Op Answer Err α} {f : α → Program Op Answer Err β}
    {q : Except Err α → Prop} {post : Except Err β → Prop} (first : Meets answers ops q p)
    (rest : ∀ a, q (.ok a) → Meets answers ops post (f a))
    (failed : ∀ x, q (.error x) → post (.error x)) : Meets answers ops post (p >>= f) := by
  refine meets_bind.mpr (first.mono fun outcome ended => ?_)
  cases outcome with
  | ok a => exact rest a ended
  | error x => exact failed x ended

theorem Meets.tryCatch {p : Program Op Answer Err α} {handler : Err → Program Op Answer Err α}
    {q : Except Err α → Prop} (body : Meets answers ops q p) (kept : ∀ a, q (.ok a) → post (.ok a))
    (caught : ∀ x, q (.error x) → Meets answers ops post (handler x)) :
    Meets answers ops post (p.tryCatch handler) := by
  induction p with
  | done outcome =>
    cases outcome with
    | ok a => exact kept a body
    | error x => exact caught x body
  | call op next ih => exact ⟨body.1, fun answer may => ih answer (body.2 answer may)⟩

/-- A program that calls operations among `ops` whatever it is answered. -/
theorem meets_of_within {p : Program Op Answer Err α} (within : Within ops (fun _ => True) p) :
    Meets answers ops (fun _ => True) p := by
  induction p with
  | done outcome => trivial
  | call op next ih =>
    exact ⟨within.1, fun answer _ => ih answer (within.2 answer fun _ _ => trivial)⟩

theorem Meets.andThen {p : Program Op Answer Err α} {next : Except Err α → Program Op Answer Err β}
    {middle : Except Err α → Prop} {post : Except Err β → Prop} (first : Meets answers ops middle p)
    (rest : ∀ outcome, middle outcome → Meets answers ops post (next outcome)) :
    Meets answers ops post (p.andThen next) := by
  induction p with
  | done outcome => exact rest outcome first
  | call op cont ih => exact ⟨first.1, fun answer may => ih answer (first.2 answer may)⟩

/-- A program calls what the programs call that carry out its operations. -/
theorem Meets.expand {carry : (op : Op') → Program Op Answer Err (Answer' op)}
    {answers : (op : Op') → Except Err (Answer' op) → Prop} {ops : Op' → Prop}
    {answers' : (op : Op) → Except Err (Answer op) → Prop} {ops' : Op → Prop}
    {p : Program Op' Answer' Err α} (meets : Meets answers ops post p)
    (carried : ∀ op, ops op → Meets answers' ops' (answers op) (carry op)) :
    Meets answers' ops' post (p.expand carry) := by
  induction p with
  | done outcome => exact meets
  | call op next ih =>
    exact (carried op meets.1).andThen fun answer may => ih answer (meets.2 answer may)

/-- Of a program that may call anything, nothing is asked. -/
theorem meets_all (p : Program Op Answer Err α) :
    Meets answers (fun _ => True) (fun _ => True) p := by
  induction p with
  | done outcome => trivial
  | call op next ih => exact ⟨trivial, fun answer _ => ih answer⟩

/-- The calls of a program are right among other operations as well. -/
theorem Meets.lift (Answer' : Op' → Type) (inject : Op → Op')
    {answers : (op : Op') → Except Err (Answer' op) → Prop} {ops : Op' → Prop}
    {p : Program Op (fun op => Answer' (inject op)) Err α}
    (meets : Meets (fun op => answers (inject op)) (fun op => ops (inject op)) post p) :
    Meets answers ops post (p.lift inject) := by
  induction p with
  | done outcome => exact meets
  | call op next ih => exact ⟨meets.1, fun answer may => ih answer (meets.2 answer may)⟩

/-! ### Among others -/

section Safe

variable {step : Step Op Answer Err σ} {inv : σ → Prop} {keeps : σ → σ → Prop}

/-- A program whose operations keep the invariant and answer as they should. -/
theorem Meets.safe {p : Program Op Answer Err α} (meets : Meets answers ops post p)
    (each : ∀ s op answer after, ops op → inv s → step s op answer after →
      (inv after ∧ keeps s after) ∧ answers op answer) (s : σ) (log : List (Event Op Answer Err)) :
    Safe step inv keeps (fun outcome _ => post outcome) p s log := by
  induction p generalizing s log with
  | done outcome => exact meets
  | call op next ih =>
    intro now answer after _ holds taken
    obtain ⟨kept, may⟩ := each now op answer after meets.1 holds taken
    exact ⟨kept, ih answer (meets.2 answer may) after _⟩

/-- The outcome of a program, and what goes on from it. -/
theorem Safe.andThen {p : Program Op Answer Err α} {next : Except Err α → Program Op Answer Err β}
    {post : Except Err β → Prop} {middle : Except Err α → Prop} {s : σ}
    {log : List (Event Op Answer Err)}
    (first : Safe step inv keeps (fun outcome _ => middle outcome) p s log)
    (rest : ∀ outcome, middle outcome → ∀ s log,
      Safe step inv keeps (fun outcome _ => post outcome) (next outcome) s log) :
    Safe step inv keeps (fun outcome _ => post outcome) (p.andThen next) s log := by
  induction p generalizing s log with
  | done outcome => exact rest outcome first s log
  | call op cont ih =>
    intro now answer after kept holds taken
    obtain ⟨holds', safe⟩ := first now answer after kept holds taken
    exact ⟨holds', ih answer safe⟩

/-- A program is safe if its calls are right for the answers that the programs which carry them
out are shown to give. -/
theorem Meets.safe_expand {carry : (op : Op') → Program Op Answer Err (Answer' op)}
    {answers : (op : Op') → Except Err (Answer' op) → Prop} {ops : Op' → Prop}
    {p : Program Op' Answer' Err α} (meets : Meets answers ops post p)
    (carried : ∀ op, ops op → ∀ s log,
      Safe step inv keeps (fun outcome _ => answers op outcome) (carry op) s log)
    (s : σ) (log : List (Event Op Answer Err)) :
    Safe step inv keeps (fun outcome _ => post outcome) (p.expand carry) s log := by
  induction p generalizing s log with
  | done outcome => exact meets
  | call op next ih =>
    refine (carried op meets.1 s log).andThen fun answer may s log => ?_
    exact ih answer (meets.2 answer may) s log

/-- One operation that keeps the invariant and answers as it should. -/
theorem safe_perform {op : Op} {post : Except Err (Answer op) → Prop}
    (each : ∀ s answer after, inv s → step s op answer after →
      (inv after ∧ keeps s after) ∧ post answer) (s : σ) (log : List (Event Op Answer Err)) :
    Safe step inv keeps (fun outcome _ => post outcome) (perform op) s log := by
  intro now answer after _ holds taken
  exact each now answer after holds taken

end Safe

section Lift

variable (Answer' : Op' → Type) (inject : Op → Op')
  {small : Step Op (fun op => Answer' (inject op)) Err σ}
  {inv : σ → Prop} {keeps : σ → σ → Prop} {step : Step Op' Answer' Err τ} (part : τ → σ)
  (rest : τ → Prop)

/-- What is safe over a part of the state is safe over the whole, if its operations do nothing
but what they do to the part and keep what else is asked of the whole. -/
theorem Safe.lift {p : Program Op (fun op => Answer' (inject op)) Err α} {s : σ}
    {small_log : List (Event Op (fun op => Answer' (inject op)) Err)}
    (safe : Safe small inv keeps (fun outcome _ => post outcome) p s small_log)
    (projects : ∀ t op answer after, step t (inject op) answer after →
      small (part t) op answer (part after))
    (others : ∀ t op answer after, inv (part t) → rest t →
      step t (inject op) answer after → rest after)
    {t : τ} (starts : part t = s) (log : List (Event Op' Answer' Err)) :
    Safe step (fun t => inv (part t) ∧ rest t) (fun t after => keeps (part t) (part after))
      (fun outcome _ => post outcome) (p.lift inject) t log := by
  -- what the small program sees of a step is a step of its own
  induction p generalizing s t small_log log with
  | done outcome => exact safe
  | call op next ih =>
    intro now answer after kept holds taken
    rw [starts] at kept
    obtain ⟨⟨held, kept'⟩, safe'⟩ :=
      safe (part now) answer (part after) kept holds.1 (projects now op answer after taken)
    exact ⟨⟨⟨held, others now op answer after holds.1 holds.2 taken⟩, kept'⟩, ih answer safe' rfl _⟩

end Lift

end Interactive
