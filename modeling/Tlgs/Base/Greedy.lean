import Mathlib.Data.List.TakeWhile

/-!
# Greedy repetition

A backtracking matcher tries the longest text for a repetition first and gives one
character back at a time until what follows matches. What follows is a continuation, which
receives the text taken and the rest.
-/
namespace Greedy

variable {α β : Type}

/-- Characters of a class, as many as the continuation lets it have. -/
def repeated (inClass : α → Bool) (k : List α → List α → Option β) : List α → Option β
  | [] => k [] []
  | c :: s =>
    (if inClass c then repeated inClass (fun taken rest => k (c :: taken) rest) s else none).or
      (k [] (c :: s))

variable {inClass : α → Bool} {k : List α → List α → Option β}

/-- Without a text for which the continuation succeeds there is no match. -/
theorem repeated_eq_none {s : List α}
    (fails : ∀ taken rest, s = taken ++ rest → (∀ c ∈ taken, inClass c = true) →
      k taken rest = none) :
    repeated inClass k s = none := by
  induction s generalizing k with
  | nil => exact fails [] [] rfl nofun
  | cons c s ih =>
    rw [repeated, Option.or_eq_none_iff]
    refine ⟨?_, fails [] (c :: s) rfl nofun⟩
    split
    next first =>
      refine ih fun taken rest same all => fails (c :: taken) rest (congrArg (c :: ·) same) ?_
      exact List.forall_mem_cons.mpr ⟨first, all⟩
    · rfl

/-- The longest text for which the continuation succeeds is taken. -/
theorem repeated_eq_some {taken rest : List α} {b : β} (all : ∀ c ∈ taken, inClass c = true)
    (succeeds : k taken rest = some b)
    (longer : ∀ more rest', more ≠ [] → rest = more ++ rest' → (∀ c ∈ more, inClass c = true) →
      k (taken ++ more) rest' = none) :
    repeated inClass k (taken ++ rest) = some b := by
  induction taken generalizing k with
  | nil =>
    cases rest with
    | nil => exact succeeds
    | cons c rest =>
      -- the class could go on, so the longer repetitions are tried first
      rw [List.nil_append, repeated, succeeds, Option.or_eq_some_iff]
      right
      refine ⟨?_, rfl⟩
      split
      next first =>
        refine repeated_eq_none fun more rest' same all => ?_
        refine longer (c :: more) rest' (List.cons_ne_nil _ _) (congrArg (c :: ·) same) ?_
        exact List.forall_mem_cons.mpr ⟨first, all⟩
      · rfl
  | cons c taken ih =>
    obtain ⟨first, others⟩ := List.forall_mem_cons.mp all
    have found : repeated inClass (fun taken rest => k (c :: taken) rest) (taken ++ rest) =
        some b :=
      ih others succeeds longer
    rw [List.cons_append, repeated, if_pos first, found, Option.some_or]

/-- A continuation that takes any text takes all of the class. -/
theorem repeated_eq_takeWhile {s : List α} {b : β}
    (succeeds : k (s.takeWhile inClass) (s.dropWhile inClass) = some b) :
    repeated inClass k s = some b := by
  have all : ∀ c ∈ s.takeWhile inClass, inClass c = true := fun c member =>
    List.mem_takeWhile_imp member
  have whole := repeated_eq_some all succeeds fun more rest' some_more same inside => by
    cases more with
    | nil => exact absurd rfl some_more
    | cons c more =>
      have stops := List.head?_dropWhile_not inClass s
      rw [same, List.cons_append, List.head?_cons] at stops
      have outside : inClass c = false := stops
      rw [inside c List.mem_cons_self] at outside
      cases outside
  rwa [List.takeWhile_append_dropWhile] at whole

end Greedy
