import Mathlib.Data.List.Basic

/-!
# Longest runs

A loop over a list counts how many elements in a row satisfy a test, starts again at one that
does not, and remembers the highest count. The count is the length of the longest run at the
end of what was read, and the highest count that of the longest run anywhere in it.
-/
namespace Runs

variable {α : Type} (test : α → Bool)

/-- The highest count, from the count and the highest count so far. -/
def longest : Nat → Nat → List α → Nat
  | _, highest, [] => highest
  | count, highest, x :: xs =>
    let count := if test x then count + 1 else 0
    longest count (max highest count) xs

/-- The list contains that many elements in a row that satisfy the test. -/
def HasRun (k : Nat) (xs : List α) : Prop :=
  ∃ run, run <:+: xs ∧ run.length = k ∧ ∀ x ∈ run, test x = true

/-- The list ends with such elements. -/
def EndsWithRun (k : Nat) (xs : List α) : Prop :=
  ∃ run, run <:+ xs ∧ run.length = k ∧ ∀ x ∈ run, test x = true

/-- The counts describe what was read. -/
structure Counted (seen : List α) (count highest : Nat) : Prop where
  ending : ∀ k, k ≤ count ↔ EndsWithRun test k seen
  within : ∀ k, k ≤ highest ↔ HasRun test k seen

variable {test}

theorem endsWithRun_concat {k : Nat} {seen : List α} {x : α} :
    EndsWithRun test k (seen ++ [x]) ↔
      k = 0 ∨ ∃ n, k = n + 1 ∧ test x = true ∧ EndsWithRun test n seen := by
  simp only [EndsWithRun, List.suffix_concat_iff]
  constructor
  · -- a run at the end is empty, or ends with the new element
    rintro ⟨run, rfl | ⟨front, rfl, suffix⟩, length, satisfy⟩
    · exact .inl length.symm
    · simp only [List.mem_append, List.mem_singleton, or_imp, forall_and, forall_eq] at satisfy
      refine .inr ⟨front.length, ?_, satisfy.2, front, suffix, rfl, satisfy.1⟩
      rw [← length, List.length_append, List.length_singleton]
  · rintro (rfl | ⟨n, rfl, last, front, suffix, length, satisfy⟩)
    · exact ⟨[], .inl rfl, rfl, by simp⟩
    · refine ⟨front ++ [x], .inr ⟨front, rfl, suffix⟩, by simp [length], ?_⟩
      simpa [or_imp, forall_and, last] using satisfy

theorem hasRun_concat {k : Nat} {seen : List α} {x : α} :
    HasRun test k (seen ++ [x]) ↔ EndsWithRun test k (seen ++ [x]) ∨ HasRun test k seen := by
  simp only [HasRun, EndsWithRun, List.infix_concat_iff, or_and_right, exists_or]

/-- Before anything was read, only the empty run was. -/
theorem counted_nil : Counted test [] 0 0 where
  ending k := by
    rw [Nat.le_zero]
    constructor
    · rintro rfl
      exact ⟨[], List.nil_suffix, rfl, by simp⟩
    · rintro ⟨run, part, rfl, _⟩
      rw [List.suffix_nil.mp part, List.length_nil]
  within k := by
    rw [Nat.le_zero]
    constructor
    · rintro rfl
      exact ⟨[], List.nil_infix, rfl, by simp⟩
    · rintro ⟨run, part, rfl, _⟩
      rw [List.infix_nil.mp part, List.length_nil]

/-- One element more. -/
theorem Counted.concat {seen : List α} {count highest : Nat}
    (counted : Counted test seen count highest) (x : α) :
    Counted test (seen ++ [x]) (if test x then count + 1 else 0)
      (max highest (if test x then count + 1 else 0)) := by
  have ending : ∀ k, k ≤ (if test x then count + 1 else 0) ↔ EndsWithRun test k (seen ++ [x]) := by
    intro k
    rw [endsWithRun_concat]
    cases satisfied : test x with
    | false => simp
    | true =>
      simp only [if_true, ← counted.ending]
      cases k with
      | zero => simp
      | succ k => simp
  -- a run that was not there before is at the end
  refine ⟨ending, fun k => ?_⟩
  rw [hasRun_concat, ← ending, ← counted.within]
  omega

theorem Counted.longest {seen : List α} {count highest : Nat}
    (counted : Counted test seen count highest) (xs : List α) (k : Nat) :
    k ≤ longest test count highest xs ↔ HasRun test k (seen ++ xs) := by
  induction xs generalizing seen count highest with
  | nil => rw [List.append_nil, ← counted.within, Runs.longest]
  | cons x xs ih =>
    have next := ih (counted.concat x)
    rw [List.append_assoc, List.singleton_append] at next
    exact next

/-- The highest count reaches a number exactly when there is a run of that length. -/
theorem le_longest_iff (k : Nat) (xs : List α) : k ≤ longest test 0 0 xs ↔ HasRun test k xs :=
  counted_nil.longest xs k

theorem HasRun.mono {test' : α → Bool} {k : Nat} {xs : List α} (runs : HasRun test k xs)
    (implies : ∀ x, test x = true → test' x = true) : HasRun test' k xs := by
  obtain ⟨run, part, length, satisfy⟩ := runs
  exact ⟨run, part, length, fun x member => implies x (satisfy x member)⟩

end Runs
