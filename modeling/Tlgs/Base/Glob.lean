import Mathlib.Data.List.Basic

/-!
# Glob patterns

A pattern is a text in which one character, the star, stands for any sequence and every
other character for itself. A pattern matches a whole text; it matches some prefix of a
text exactly when its literal pieces occur there one after the other.
-/
namespace Glob

variable {α : Type} [DecidableEq α] {star : α}

variable (star) in
/-- The pattern matches the whole text. -/
def Matches : List α → List α → Prop
  | [], s => s = []
  | c :: pattern, s =>
    if c = star then ∃ skipped rest, s = skipped ++ rest ∧ Matches pattern rest
    else ∃ rest, s = c :: rest ∧ Matches pattern rest

@[simp] theorem matches_nil {s : List α} : Matches star [] s ↔ s = [] := Iff.rfl

theorem matches_star {pattern s : List α} :
    Matches star (star :: pattern) s ↔
      ∃ skipped rest, s = skipped ++ rest ∧ Matches star pattern rest := by
  simp only [Matches, if_true]

omit [DecidableEq α] in
/-- A text that starts with a character is taken apart in one way. -/
theorem exists_cons_iff {c d : α} {s : List α} {property : List α → Prop} :
    (∃ rest, d :: s = c :: rest ∧ property rest) ↔ d = c ∧ property s := by
  constructor
  · rintro ⟨rest, same, holds⟩
    obtain ⟨rfl, rfl⟩ := List.cons.inj same
    exact ⟨rfl, holds⟩
  · rintro ⟨rfl, holds⟩
    exact ⟨s, rfl, holds⟩

theorem matches_cons {c : α} {pattern s : List α} (plain : c ≠ star) :
    Matches star (c :: pattern) s ↔ ∃ rest, s = c :: rest ∧ Matches star pattern rest := by
  simp only [Matches, if_neg plain]

/-- A pattern that starts with a literal text matches what that text begins. -/
theorem matches_append {literal pattern s : List α} (plain : star ∉ literal) :
    Matches star (literal ++ pattern) s ↔ ∃ rest, s = literal ++ rest ∧
      Matches star pattern rest := by
  induction literal generalizing s with
  | nil => simp
  | cons c literal ih =>
    rw [List.mem_cons, not_or] at plain
    obtain ⟨other, plain⟩ := plain
    rw [List.cons_append, matches_cons (Ne.symm other)]
    constructor
    · rintro ⟨_, rfl, matched⟩
      obtain ⟨rest, rfl, matches_rest⟩ := (ih plain).mp matched
      exact ⟨rest, rfl, matches_rest⟩
    · rintro ⟨rest, rfl, matched⟩
      exact ⟨literal ++ rest, rfl, (ih plain).mpr ⟨rest, rfl, matched⟩⟩

theorem matches_literal {literal s : List α} (plain : star ∉ literal) :
    Matches star literal s ↔ s = literal := by
  have split : Matches star (literal ++ []) s ↔ ∃ rest, s = literal ++ rest ∧
      Matches star [] rest :=
    matches_append plain
  simpa using split

/-- One star between two literal texts. -/
theorem matches_middle {left right s : List α} (plain : star ∉ left) (plain' : star ∉ right) :
    Matches star (left ++ star :: right) s ↔ ∃ skipped, s = left ++ (skipped ++ right) := by
  rw [matches_append plain]
  constructor
  · rintro ⟨rest, rfl, matched⟩
    obtain ⟨skipped, rest, rfl, matches_rest⟩ := matches_star.mp matched
    rw [(matches_literal plain').mp matches_rest]
    exact ⟨skipped, rfl⟩
  · rintro ⟨skipped, rfl⟩
    exact ⟨skipped ++ right, rfl, matches_star.mpr
      ⟨skipped, right, rfl, (matches_literal plain').mpr rfl⟩⟩

/-- A literal text between two stars, after another one. -/
theorem matches_around {left inside s : List α} (plain : star ∉ left) (plain' : star ∉ inside) :
    Matches star (left ++ star :: (inside ++ [star])) s ↔ ∃ rest, s = left ++ rest ∧
      inside <:+: rest := by
  rw [matches_append plain]
  refine exists_congr fun rest => and_congr_right fun _ => ?_
  rw [matches_star]
  constructor
  · rintro ⟨skipped, tail, rfl, matched⟩
    obtain ⟨last, rfl, _⟩ := (matches_append plain').mp matched
    exact ⟨skipped, last, List.append_assoc _ _ _⟩
  · rintro ⟨skipped, last, rfl⟩
    refine ⟨skipped, inside ++ last, List.append_assoc _ _ _,
      (matches_append plain').mpr ⟨last, rfl, ?_⟩⟩
    exact matches_star.mpr ⟨last, [], (List.append_nil _).symm, rfl⟩

/-- The text of the pattern, each star left out. -/
def literals (star : α) (pattern : List α) : List α := pattern.filter (· ≠ star)

/-- It matches, with the stars for nothing. -/
theorem matches_literals (pattern : List α) : Matches star pattern (literals star pattern) := by
  induction pattern with
  | nil => rfl
  | cons c pattern ih =>
    by_cases starred : c = star
    · subst starred
      rw [literals, List.filter_cons_of_neg (by simp)]
      exact matches_star.mpr ⟨[], _, rfl, ih⟩
    · rw [literals, List.filter_cons_of_pos (by simpa using starred)]
      exact (matches_cons starred).mpr ⟨_, rfl, ih⟩

/-- Every other character of the pattern is in a text that it matches. -/
theorem mem_of_matches {c : α} {pattern s : List α} (matched : Matches star pattern s)
    (member : c ∈ pattern) (plain : c ≠ star) : c ∈ s := by
  induction pattern generalizing s with
  | nil => cases member
  | cons d pattern ih =>
    by_cases starred : d = star
    · subst starred
      obtain ⟨skipped, rest, rfl, later⟩ := matches_star.mp matched
      exact List.mem_append_right _ (ih later ((List.mem_cons.mp member).resolve_left plain))
    · obtain ⟨rest, rfl, later⟩ := (matches_cons starred).mp matched
      rcases List.mem_cons.mp member with rfl | member
      · exact List.mem_cons_self
      · exact List.mem_cons_of_mem _ (ih later member)

/-! ### Literal pieces in order -/

/-- The pieces occur one after the other, without overlap. -/
def Occur : List (List α) → List α → Prop
  | [], _ => True
  | piece :: pieces, s => ∃ before after, s = before ++ (piece ++ after) ∧ Occur pieces after

/-- The same with the first piece at the start. -/
def Follow : List (List α) → List α → Prop
  | [], _ => True
  | piece :: pieces, s => ∃ after, s = piece ++ after ∧ Occur pieces after

omit [DecidableEq α] in
theorem occur_iff_follow {pieces : List (List α)} (some_piece : pieces ≠ []) {s : List α} :
    Occur pieces s ↔ ∃ before rest, s = before ++ rest ∧ Follow pieces rest := by
  cases pieces with
  | nil => exact absurd rfl some_piece
  | cons piece pieces =>
    constructor
    · rintro ⟨before, after, rfl, occur⟩
      exact ⟨before, piece ++ after, rfl, after, rfl, occur⟩
    · rintro ⟨before, _, rfl, after, rfl, occur⟩
      exact ⟨before, after, rfl, occur⟩

/-- A pattern matches a prefix of a text exactly when its pieces follow each other. -/
theorem prefix_matches_iff {pattern s : List α} :
    (∃ start, start <+: s ∧ Matches star pattern start) ↔ Follow (pattern.splitOn star) s := by
  induction pattern generalizing s with
  | nil =>
    refine iff_of_true ⟨[], List.nil_prefix, rfl⟩ ?_
    rw [List.splitOn_nil]
    exact ⟨s, rfl, trivial⟩
  | cons c pattern ih =>
    rw [List.splitOn_cons_eq_if_modifyHead]
    by_cases starred : c = star
    · -- the first piece is empty, and the others may start anywhere
      subst starred
      have follow : Follow ([] :: pattern.splitOn c) s ↔ Occur (pattern.splitOn c) s := by
        simp [Follow]
      rw [if_pos (beq_self_eq_true c), follow, occur_iff_follow (List.splitOn_ne_nil _ _)]
      constructor
      · rintro ⟨_, ⟨after, rfl⟩, matched⟩
        obtain ⟨skipped, rest, rfl, matches_rest⟩ := matches_star.mp matched
        exact ⟨skipped, rest ++ after, List.append_assoc _ _ _,
          ih.mp ⟨rest, List.prefix_append _ _, matches_rest⟩⟩
      · rintro ⟨skipped, rest, rfl, followed⟩
        obtain ⟨start, begins, matched⟩ := ih.mpr followed
        exact ⟨skipped ++ start, (List.prefix_append_right_inj skipped).mpr begins,
          matches_star.mpr ⟨skipped, start, rfl, matched⟩⟩
    · rw [if_neg (by simpa using starred)]
      cases pieces : pattern.splitOn star with
      | nil => exact absurd pieces (List.splitOn_ne_nil _ _)
      | cons piece others =>
        rw [pieces] at ih
        constructor
        · rintro ⟨_, ⟨after, rfl⟩, matched⟩
          obtain ⟨rest, rfl, matches_rest⟩ := (matches_cons starred).mp matched
          obtain ⟨last, same, occur⟩ := ih.mp ⟨rest, List.prefix_append rest after, matches_rest⟩
          exact ⟨last, congrArg (c :: ·) same, occur⟩
        · rintro ⟨last, rfl, occur⟩
          obtain ⟨start, begins, matched⟩ := ih.mpr ⟨last, rfl, occur⟩
          exact ⟨c :: start, (List.prefix_cons_inj c).mpr begins,
            (matches_cons starred).mpr ⟨start, rfl, matched⟩⟩

end Glob
