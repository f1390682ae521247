import Tlgs.Base.Threads

/-!
# Weakest preconditions among others

What a program ensures while other programs and the surroundings change the state between its
operations. As `Safe`, but the postcondition speaks of the state at the end as well, so that the
parts of a program can be judged one after the other.
-/
namespace Interactive

open Program

variable {Op : Type} {Answer : Op → Type} {Err α β σ : Type}

section Among

variable (step : Step Op Answer Err σ) (inv : σ → Prop) (keeps : σ → σ → Prop)

def Among (post : Except Err α → σ → List (Event Op Answer Err) → Prop) :
    Program Op Answer Err α → σ → List (Event Op Answer Err) → Prop
  | .done outcome, s, log => post outcome s log
  | .call op next, s, log => ∀ now answer after, keeps s now → inv now → step now op answer after →
      (inv after ∧ keeps now after) ∧ Among post (next answer) after (log ++ [⟨op, answer⟩])

/-- The postcondition of a program that `f` follows. -/
def AmongThen (f : α → Program Op Answer Err β)
    (post : Except Err β → σ → List (Event Op Answer Err) → Prop) :
    Except Err α → σ → List (Event Op Answer Err) → Prop
  | .ok a, s, log => Among step inv keeps post (f a) s log
  | .error x, s, log => post (.error x) s log

/-- The postcondition of a program whose failures go to `handler`. -/
def AmongElse (handler : Err → Program Op Answer Err α)
    (post : Except Err α → σ → List (Event Op Answer Err) → Prop) :
    Except Err α → σ → List (Event Op Answer Err) → Prop
  | .ok a, s, log => post (.ok a) s log
  | .error x, s, log => Among step inv keeps post (handler x) s log

variable {step inv keeps} {post : Except Err α → σ → List (Event Op Answer Err) → Prop}
  {p : Program Op Answer Err α} {s : σ} {log : List (Event Op Answer Err)}

@[simp] theorem among_pure {a : α} :
    Among step inv keeps post (pure a) s log ↔ post (.ok a) s log := Iff.rfl

@[simp] theorem among_throw {x : Err} :
    Among step inv keeps post (throw x) s log ↔ post (.error x) s log := Iff.rfl

/-- One operation, whatever the others have done before it. -/
theorem among_perform {op : Op}
    {post : Except Err (Answer op) → σ → List (Event Op Answer Err) → Prop} :
    Among step inv keeps post (perform op) s log ↔
      ∀ now answer after, keeps s now → inv now → step now op answer after →
        (inv after ∧ keeps now after) ∧ post answer after (log ++ [⟨op, answer⟩]) := Iff.rfl

theorem among_bind {f : α → Program Op Answer Err β}
    {post : Except Err β → σ → List (Event Op Answer Err) → Prop} :
    Among step inv keeps post (p >>= f) s log ↔
      Among step inv keeps (AmongThen step inv keeps f post) p s log := by
  change Among step inv keeps post (p.bind f) s log ↔ _
  induction p generalizing s log with
  | done outcome => cases outcome <;> exact Iff.rfl
  | call op next ih =>
    simp only [Program.bind, Among]
    refine forall₃_congr fun now answer after => ?_
    refine forall₃_congr fun _ _ _ => and_congr_right fun _ => ih answer

theorem among_tryCatch {handler : Err → Program Op Answer Err α} :
    Among step inv keeps post (p.tryCatch handler) s log ↔
      Among step inv keeps (AmongElse step inv keeps handler post) p s log := by
  induction p generalizing s log with
  | done outcome => cases outcome <;> exact Iff.rfl
  | call op next ih =>
    simp only [Program.tryCatch, Among]
    refine forall₃_congr fun now answer after => ?_
    refine forall₃_congr fun _ _ _ => and_congr_right fun _ => ih answer

theorem Among.mono {post' : Except Err α → σ → List (Event Op Answer Err) → Prop}
    (among : Among step inv keeps post p s log)
    (weaker : ∀ outcome s log, post outcome s log → post' outcome s log) :
    Among step inv keeps post' p s log := by
  induction p generalizing s log with
  | done outcome => exact weaker outcome s log among
  | call op next ih =>
    intro now answer after kept holds taken
    obtain ⟨holds', rest⟩ := among now answer after kept holds taken
    exact ⟨holds', ih answer rest⟩

/-- A program judged with the state at the end is safe for what is said without it. -/
theorem Among.safe {post' : Except Err α → List (Event Op Answer Err) → Prop}
    (among : Among step inv keeps post p s log)
    (weaker : ∀ outcome s log, post outcome s log → post' outcome log) :
    Safe step inv keeps post' p s log := by
  induction p generalizing s log with
  | done outcome => exact weaker outcome s log among
  | call op next ih =>
    intro now answer after kept holds taken
    obtain ⟨holds', rest⟩ := among now answer after kept holds taken
    exact ⟨holds', ih answer rest⟩

end Among

end Interactive
