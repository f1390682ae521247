import Tlgs.Base.Substitution

/-!
# Permits

Programs that take a number when they begin and give it back when they end, whatever happens in
between. Run side by side, the count of numbers that are out is the count of programs under way, and
those that were given a number up to some limit are never more than one above it.
-/
namespace Interactive

open Program

variable {Op : Type} {Answer : Op → Type} {Err α σ ι : Type}

namespace Permits

variable (acquire release : Op)

/-- Neither operation is called. -/
def Clear : Program Op Answer Err α → Prop
  | .done _ => True
  | .call op next => (op ≠ acquire ∧ op ≠ release) ∧ ∀ answer, Clear (next answer)

/-- The number is given back once, before the program ends. -/
def Holding : Program Op Answer Err α → Prop
  | .done _ => False
  | .call op next => op = release ∧ (∀ answer, Clear acquire release (next answer)) ∨
      (op ≠ acquire ∧ op ≠ release) ∧ ∀ answer, Holding (next answer)

/-- A number is taken first of all. -/
inductive Brackets : Program Op Answer Err α → Prop
  | take {next : Except Err (Answer acquire) → Program Op Answer Err α}
      (taken : ∀ number, Holding acquire release (next (.ok number)))
      (refused : ∀ x, Clear acquire release (next (.error x))) : Brackets (.call acquire next)

variable {acquire release}

/-- The body goes on when it has a number, and gives it back with whatever outcome. -/
def bracket (acquire release : Op) (body : Answer acquire → Program Op Answer Err α) :
    Program Op Answer Err α :=
  .call acquire fun
    | .ok number => (body number).andThen fun outcome => .call release fun _ => .done outcome
    | .error x => .done (.error x)

theorem holding_andThen {p : Program Op Answer Err α}
    (clear : Within (fun op => op ≠ acquire ∧ op ≠ release) (fun _ => True) p) :
    Holding acquire release (p.andThen fun outcome => .call release fun _ => .done outcome) := by
  induction p with
  | done outcome => exact .inl ⟨rfl, fun _ => trivial⟩
  | call op next ih =>
    exact .inr ⟨clear.1, fun answer => ih answer (clear.2 answer fun _ _ => trivial)⟩

theorem brackets_bracket {body : Answer acquire → Program Op Answer Err α}
    (clear : ∀ number, Within (fun op => op ≠ acquire ∧ op ≠ release) (fun _ => True)
      (body number)) :
    Brackets acquire release (bracket acquire release body) :=
  .take (fun number => holding_andThen (clear number)) fun _ => trivial

/-- What the body meets is met with the number around it. -/
theorem meets_bracket {answers : (op : Op) → Except Err (Answer op) → Prop} {ops : Op → Prop}
    {post : Except Err α → Prop} {body : Answer acquire → Program Op Answer Err α}
    (take : ops acquire) (give : ops release)
    (inner : ∀ number, Meets answers ops post (body number)) (refused : ∀ x, post (.error x)) :
    Meets answers ops post (bracket acquire release body) := by
  refine ⟨take, fun answer _ => ?_⟩
  cases answer with
  | error x => exact refused x
  | ok number => exact (inner number).andThen fun outcome ended => ⟨give, fun _ _ => ended⟩

theorem Clear.not_holding [Nonempty Err] {p : Program Op Answer Err α}
    (clear : Clear acquire release p) :
    ¬Holding acquire release p := by
  induction p with
  | done outcome => exact id
  | call op next ih =>
    rintro (⟨releases, _⟩ | ⟨_, holding⟩)
    · exact clear.1.2 releases
    · obtain ⟨x⟩ := ‹Nonempty Err›
      exact ih (.error x) (clear.2 _) (holding _)

/-- The operations keep count: the number that is taken is how many were out before. -/
structure Counts (step : Step Op Answer Err σ) (ambient : σ → σ → Prop) (count : σ → Nat)
    (acquire release : Op) (number : Answer acquire → Nat) : Prop where
  acquires : ∀ s a after, step s acquire (.ok a) after → number a = count s ∧
  count after = count s + 1
  succeeds : ∀ s x after, ¬step s acquire (.error x) after
  releases : ∀ s answer after, step s release answer after → count after = count s - 1
  others : ∀ s op answer after, op ≠ acquire → op ≠ release → step s op answer after →
  count after = count s
  moves : ∀ s after, ambient s after → count after = count s

section Pools

variable (acquire release) (number : Answer acquire → Nat) (limit : Nat)

/-- The program is under way, and the number it was given is no greater than the limit. -/
def Admitted (thread : Thread Op Answer Err α ι) : Prop :=
  Holding acquire release thread.program ∧
    ∃ a rest, thread.log = ⟨acquire, .ok a⟩ :: rest ∧ number a ≤ limit

open Classical in
/-- How many programs hold a number. -/
noncomputable def holders (pool : Pool Op Answer Err α σ ι) : Nat :=
  pool.threads.countP fun thread => Holding acquire release thread.program

open Classical in
noncomputable def admitted (pool : Pool Op Answer Err α σ ι) : Nat :=
  pool.threads.countP fun thread => Admitted acquire release number limit thread

/-- A program has not begun, or it holds a number, or it has given it back. -/
def Phased (thread : Thread Op Answer Err α ι) : Prop :=
  Brackets acquire release thread.program ∧ thread.log = [] ∨
    Holding acquire release thread.program ∨
    Clear acquire release thread.program

structure Accounted (count : σ → Nat) (pool : Pool Op Answer Err α σ ι) : Prop where
  phased : ∀ thread ∈ pool.threads, Phased acquire release thread
  counted : count pool.state = holders acquire release pool
  bounded : admitted acquire release number limit pool ≤ limit + 1

variable {acquire release number limit} {step : Step Op Answer Err σ} {ambient : σ → σ → Prop}
  {count : σ → Nat} {body : ι → Program Op Answer Err α}

variable (number limit) in
theorem admitted_le_holders (pool : Pool Op Answer Err α σ ι) :
    admitted acquire release number limit pool ≤ holders acquire release pool := by
  refine List.countP_mono_left fun thread _ admitted => ?_
  simp only [decide_eq_true_eq] at admitted ⊢
  exact admitted.1

/-- One more step leaves a program admitted only if it was so before. -/
theorem Admitted.before {label : ι} {p q : Program Op Answer Err α}
    {log : List (Event Op Answer Err)} {event : Event Op Answer Err}
    (holding : Holding acquire release p) (other : event.op ≠ acquire)
    (admitted : Admitted acquire release number limit ⟨label, q, log ++ [event]⟩) :
    Admitted acquire release number limit ⟨label, p, log⟩ := by
  obtain ⟨_, a, rest, logged, small⟩ := admitted
  refine ⟨holding, a, ?_⟩
  cases log with
  | nil =>
    obtain ⟨first, _⟩ := List.cons.inj logged
    rw [first] at other
    exact absurd rfl other
  | cons first log =>
    obtain ⟨rfl, _⟩ := List.cons.inj logged
    exact ⟨log, rfl, small⟩

theorem Brackets.not_holding (distinct : acquire ≠ release) {p : Program Op Answer Err α}
    (brackets : Brackets acquire release p) : ¬Holding acquire release p := by
  cases brackets with
  | take taken refused =>
    rintro (⟨same, _⟩ | ⟨⟨other, _⟩, _⟩)
    · exact distinct same
    · exact other rfl

section Counting

variable (acquire release number limit) (s after : σ) (front back : List (Thread Op Answer Err α ι))
  (old new : Thread Op Answer Err α ι)

open Classical in
theorem holders_replace :
    holders acquire release ⟨after, front ++ new :: back⟩ +
        (if Holding acquire release old.program then 1 else 0) =
      holders acquire release ⟨s, front ++ old :: back⟩ +
        (if Holding acquire release new.program then 1 else 0) := by
  simp only [holders, List.countP_append, List.countP_cons, decide_eq_true_eq]
  omega

open Classical in
theorem admitted_replace :
    admitted acquire release number limit ⟨after, front ++ new :: back⟩ +
        (if Admitted acquire release number limit old then 1 else 0) =
      admitted acquire release number limit ⟨s, front ++ old :: back⟩ +
        (if Admitted acquire release number limit new then 1 else 0) := by
  simp only [admitted, List.countP_append, List.countP_cons, decide_eq_true_eq]
  omega

/-- A program that its step does not admit adds nobody. -/
theorem admitted_le (same : Admitted acquire release number limit new →
      Admitted acquire release number limit old) :
    admitted acquire release number limit ⟨after, front ++ new :: back⟩ ≤
      admitted acquire release number limit ⟨s, front ++ old :: back⟩ := by
  have replaced := admitted_replace acquire release number limit s after front back old new
  split at replaced
  · split at replaced <;> omega
  next none =>
    rw [if_neg fun admitted => none (same admitted)] at replaced
    omega

end Counting

theorem phased_replace {s after : σ} {front back : List (Thread Op Answer Err α ι)}
    {old new : Thread Op Answer Err α ι}
    (phased : ∀ thread ∈ (Pool.mk s (front ++ old :: back)).threads, Phased acquire release thread)
    (next : Phased acquire release new) :
    ∀ thread ∈ (Pool.mk after (front ++ new :: back)).threads, Phased acquire release thread := by
  intro thread member
  rcases List.mem_append.mp member with before | others
  · exact phased thread (List.mem_append_left _ before)
  · rcases List.mem_cons.mp others with rfl | behind
    · exact next
    · exact phased thread (List.mem_append_right _ (List.mem_cons_of_mem _ behind))

section Call

variable {s after : σ} {front back : List (Thread Op Answer Err α ι)} {label : ι}
  {log : List (Event Op Answer Err)}

/-- A program begins. Those admitted before are among those that were counted. -/
theorem accounted_take {next : Except Err (Answer acquire) → Program Op Answer Err α}
    {a : Answer acquire}
    (accounted : Accounted acquire release number limit count
      ⟨s, front ++ ⟨label, .call acquire next, []⟩ :: back⟩)
    (idle : ¬Holding acquire release (.call acquire next))
    (taken : Holding acquire release (next (.ok a))) (numbered : number a = count s)
    (more : count after = count s + 1) :
    Accounted acquire release number limit count
      ⟨after, front ++ ⟨label, next (.ok a), [⟨acquire, .ok a⟩]⟩ :: back⟩ := by
  have held := holders_replace acquire release s after front back ⟨label, .call acquire next, []⟩
    ⟨label, next (.ok a), [⟨acquire, .ok a⟩]⟩
  rw [if_neg idle, if_pos taken, Nat.add_zero] at held
  have counted : count s = holders acquire release
      ⟨s, front ++ ⟨label, .call acquire next, []⟩ :: back⟩ :=
    accounted.counted
  refine ⟨phased_replace accounted.phased (.inr (.inl taken)), by
    rw [held, ← counted]; exact more, ?_⟩
  by_cases small : number a ≤ limit
  · have replaced := admitted_replace acquire release number limit s after front back
      ⟨label, .call acquire next, []⟩ ⟨label, next (.ok a), [⟨acquire, .ok a⟩]⟩
    have few : admitted acquire release number limit
        ⟨s, front ++ ⟨label, .call acquire next, []⟩ :: back⟩ ≤
        holders acquire release ⟨s, front ++ ⟨label, .call acquire next, []⟩ :: back⟩ :=
      admitted_le_holders number limit _
    split at replaced <;> split at replaced <;> omega
  · -- the number is above the limit
    refine Nat.le_trans (admitted_le acquire release number limit s after front back
      ⟨label, .call acquire next, []⟩ _ fun admitted => ?_) accounted.bounded
    obtain ⟨_, a', rest, logged, within⟩ := admitted
    cases (List.cons.inj logged).1
    exact absurd within small

/-- A step of a program that has begun. -/
theorem accounted_step {op : Op} {next : Except Err (Answer op) → Program Op Answer Err α}
    {answer : Except Err (Answer op)}
    (accounted : Accounted acquire release number limit count
      ⟨s, front ++ ⟨label, .call op next, log⟩ :: back⟩)
    (other : op ≠ acquire)
    (phased : Phased acquire release ⟨label, next answer, log ++ [⟨op, answer⟩]⟩)
    (begun : Holding acquire release (next answer) → Holding acquire release (.call op next))
    (counted : count after = holders acquire release
      ⟨after, front ++ ⟨label, next answer, log ++ [⟨op, answer⟩]⟩ :: back⟩) :
    Accounted acquire release number limit count
      ⟨after, front ++ ⟨label, next answer, log ++ [⟨op, answer⟩]⟩ :: back⟩ := by
  refine ⟨phased_replace accounted.phased phased, counted, ?_⟩
  refine Nat.le_trans (admitted_le acquire release number limit s after front back
    ⟨label, .call op next, log⟩ _ fun admitted => ?_) accounted.bounded
  exact admitted.before (begun admitted.1) other

theorem accounted_call [Nonempty Err] (counts : Counts step ambient count acquire release number)
    (distinct : acquire ≠ release) {op : Op}
    {next : Except Err (Answer op) → Program Op Answer Err α} {answer : Except Err (Answer op)}
    (accounted : Accounted acquire release number limit count
      ⟨s, front ++ ⟨label, .call op next, log⟩ :: back⟩)
    (taken : step s op answer after) :
    Accounted acquire release number limit count
      ⟨after, front ++ ⟨label, next answer, log ++ [⟨op, answer⟩]⟩ :: back⟩ := by
  have own := accounted.phased ⟨label, .call op next, log⟩
    (List.mem_append_right _ List.mem_cons_self)
  have counted : count s = holders acquire release
      ⟨s, front ++ ⟨label, .call op next, log⟩ :: back⟩ :=
    accounted.counted
  have held := holders_replace acquire release s after front back ⟨label, .call op next, log⟩
    ⟨label, next answer, log ++ [⟨op, answer⟩]⟩
  rcases own with ⟨brackets, rfl⟩ | (⟨rfl, clear⟩ | ⟨other, holding⟩) | ⟨other, clear⟩
  · have idle := brackets.not_holding distinct
    cases brackets with
    | take begins refused =>
      cases answer with
      | error x => exact absurd taken (counts.succeeds s x after)
      | ok a =>
        obtain ⟨numbered, more⟩ := counts.acquires s a after taken
        exact accounted_take accounted idle (begins a) numbered more
  · -- the number is given back
    have before : Holding acquire op (.call op next) := .inl ⟨rfl, clear⟩
    have gone : ¬Holding acquire op (next answer) := (clear answer).not_holding
    rw [if_pos before, if_neg gone] at held
    refine accounted_step accounted distinct.symm (.inr (.inr (clear answer)))
      (fun again => absurd again gone) ?_
    rw [counts.releases s answer after taken]
    omega
  · have before : Holding acquire release (.call op next) := .inr ⟨other, holding⟩
    rw [if_pos before, if_pos (holding answer)] at held
    refine accounted_step accounted other.1 (.inr (.inl (holding answer))) (fun _ => before) ?_
    rw [counts.others s op answer after other.1 other.2 taken, counted]
    exact (Nat.add_right_cancel held).symm
  · have before : ¬Holding acquire release (.call op next) := Clear.not_holding ⟨other, clear⟩
    have gone : ¬Holding acquire release (next answer) := (clear answer).not_holding
    rw [if_neg before, if_neg gone, Nat.add_zero, Nat.add_zero] at held
    refine accounted_step accounted other.1 (.inr (.inr (clear answer)))
      (fun again => absurd again gone) ?_
    rw [counts.others s op answer after other.1 other.2 taken, counted, held]

end Call

/-- In every run, as many numbers are out as programs are under way, and no more than one above the
limit of those are admitted. -/
theorem accounted_of_reachable [Nonempty Err]
    (counts : Counts step ambient count acquire release number) (distinct : acquire ≠ release)
    (brackets : ∀ label, Brackets acquire release (body label)) {init : σ}
    (initially : count init = 0) {pool : Pool Op Answer Err α σ ι}
    (reached : Reachable step ambient body init pool) :
    Accounted acquire release number limit count pool := by
  induction reached with
  | start => exact ⟨fun _ member => absurd member List.not_mem_nil, initially, Nat.zero_le _⟩
  | next _ taken ih =>
    cases taken with
    -- a program that has not begun holds nothing
    | @spawn s threads label =>
      have idle := (brackets label).not_holding distinct
      refine ⟨fun thread member => ?_, ?_, ?_⟩
      · rcases List.mem_append.mp member with before | added
        · exact ih.phased thread before
        · cases List.mem_singleton.mp added
          exact .inl ⟨brackets label, rfl⟩
      · refine ih.counted.trans ?_
        simp [holders, idle]
      · refine le_of_eq_of_le ?_ ih.bounded
        simp [admitted, Admitted, idle]
    | call taken => exact accounted_call counts distinct ih taken
    | @ambient s after threads moved =>
      exact ⟨ih.phased, (counts.moves s after moved).trans ih.counted, ih.bounded⟩

end Pools

end Permits

end Interactive
