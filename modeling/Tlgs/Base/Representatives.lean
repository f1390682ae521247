import Mathlib.Data.List.Perm.Subperm

/-!
# Representatives

Elements come one after the other, and some of them are kept as representatives. A new
element is kept as well, or takes the place of one that it covers, or is left out because
one that is kept covers it or excuses it. Whatever is left out in the end is covered by
what is kept, or was excused by an element before it.
-/
namespace Representatives

variable {α : Type} {covers excuses : α → α → Prop}

/-- What becomes of the representatives, in whatever order they are kept. -/
inductive Step (covers excuses : α → α → Prop) (x : α) (kept : List α) : List α → Prop
  | added {after : List α} (order : after.Perm (x :: kept)) : Step covers excuses x kept after
  | replaced {stored : α} {others after : List α} (place : kept.Perm (stored :: others))
      (better : covers x stored) (order : after.Perm (x :: others)) :
        Step covers excuses x kept after
  | covered {stored : α} {after : List α} (member : stored ∈ kept) (worse : covers stored x)
      (order : after.Perm kept) : Step covers excuses x kept after
  | excused {stored : α} {after : List α} (member : stored ∈ kept) (excuse : excuses stored x)
      (order : after.Perm kept) : Step covers excuses x kept after

/-- The representatives after a list of elements. -/
inductive Run (covers excuses : α → α → Prop) : List α → List α → Prop
  | start : Run covers excuses [] []
  | next {xs kept after : List α} {x : α} (earlier : Run covers excuses xs kept)
      (taken : Step covers excuses x kept after) : Run covers excuses (xs ++ [x]) after

variable {x y : α} {xs kept after : List α}

/-- One step keeps no element more often than it came. -/
theorem Step.subperm (taken : Step covers excuses x kept after) (own : kept.Subperm xs) :
    after.Subperm (xs ++ [x]) := by
  have more : (xs ++ [x]).Perm (x :: xs) := List.perm_append_singleton x xs
  rw [more.subperm_left]
  cases taken with
  | added order => exact order.subperm_right.mpr ((List.subperm_cons x).mpr own)
  | @replaced stored others after place better order =>
    have smaller : others.Subperm xs :=
      List.Subperm.cons_self.trans (place.subperm_right.mp own)
    exact order.subperm_right.mpr ((List.subperm_cons x).mpr smaller)
  | covered _ _ order => exact order.subperm_right.mpr (own.cons_right x)
  | excused _ _ order => exact order.subperm_right.mpr (own.cons_right x)

/-- What is kept stays covered. -/
theorem Step.stays_covered (refl : ∀ a, covers a a) (taken : Step covers excuses x kept after)
    (member : y ∈ kept) : ∃ m ∈ after, covers m y := by
  cases taken with
  | added order => exact ⟨y, order.mem_iff.mpr (List.mem_cons_of_mem _ member), refl y⟩
  | replaced place better order =>
    rcases List.mem_cons.mp (place.mem_iff.mp member) with rfl | other
    · exact ⟨x, order.mem_iff.mpr List.mem_cons_self, better⟩
    · exact ⟨y, order.mem_iff.mpr (List.mem_cons_of_mem _ other), refl y⟩
  | covered _ _ order => exact ⟨y, order.mem_iff.mpr member, refl y⟩
  | excused _ _ order => exact ⟨y, order.mem_iff.mpr member, refl y⟩

/-- The new element is covered, or one that is kept excuses it. -/
theorem Step.new_accounted (refl : ∀ a, covers a a) (taken : Step covers excuses x kept after) :
    (∃ m ∈ after, covers m x) ∨ ∃ stored ∈ kept, excuses stored x := by
  cases taken with
  | added order => exact Or.inl ⟨x, order.mem_iff.mpr List.mem_cons_self, refl x⟩
  | replaced _ _ order => exact Or.inl ⟨x, order.mem_iff.mpr List.mem_cons_self, refl x⟩
  | covered member worse order => exact Or.inl ⟨_, order.mem_iff.mpr member, worse⟩
  | excused member excuse _ => exact Or.inr ⟨_, member, excuse⟩

theorem Run.subperm (run : Run covers excuses xs kept) : kept.Subperm xs := by
  induction run with
  | start => exact List.Subperm.refl []
  | next _ taken ih => exact taken.subperm ih

/-- Every element is covered by what is kept, or was excused by one before it. -/
theorem Run.accounted (refl : ∀ a, covers a a)
    (trans : ∀ a b c, covers a b → covers b c → covers a c) (run : Run covers excuses xs kept)
    {before later : List α} (place : xs = before ++ y :: later) :
    (∃ m ∈ kept, covers m y) ∨ ∃ earlier ∈ before, excuses earlier y := by
  induction run generalizing later with
  | start => simp at place
  | @next xs kept after x run taken ih =>
    rcases List.eq_nil_or_concat later with rfl | ⟨later, last, rfl⟩
    · -- the element is the new one
      obtain ⟨rfl, same⟩ := List.append_inj' place rfl
      cases same
      rcases taken.new_accounted refl with covered | ⟨stored, member, excuse⟩
      · exact Or.inl covered
      · exact Or.inr ⟨stored, run.subperm.subset member, excuse⟩
    · -- the element came earlier, and what covered it stays covered
      rw [List.concat_eq_append, ← List.cons_append, ← List.append_assoc] at place
      obtain ⟨place, -⟩ := List.append_inj' place rfl
      rcases ih place with ⟨m, member, covered⟩ | excused
      · obtain ⟨m', member', better⟩ := taken.stays_covered refl member
        exact Or.inl ⟨m', member', trans _ _ _ better covered⟩
      · exact Or.inr excused

/-- If what covers or excuses an element is of the same kind, no kind is lost. -/
theorem Run.same_kind {same : α → α → Prop} (refl : ∀ a, covers a a)
    (same_trans : ∀ a b c, same a b → same b c → same a c)
    (covers_same : ∀ a b, covers a b → same a b) (excuses_same : ∀ a b, excuses a b → same a b)
    (run : Run covers excuses xs kept) (member : y ∈ xs) :
    ∃ m ∈ kept, same m y := by
  induction run generalizing y with
  | start => cases member
  | next run taken ih =>
    rcases List.mem_append.mp member with earlier | new
    · obtain ⟨m, isKept, kind⟩ := ih earlier
      obtain ⟨m', isKept', covered⟩ := taken.stays_covered refl isKept
      exact ⟨m', isKept', same_trans _ _ _ (covers_same _ _ covered) kind⟩
    · rw [List.mem_singleton.mp new]
      rcases taken.new_accounted refl with ⟨m, isKept, covered⟩ | ⟨stored, isKept, excuse⟩
      · exact ⟨m, isKept, covers_same _ _ covered⟩
      · obtain ⟨m, isKept', covered⟩ := taken.stays_covered refl isKept
        exact ⟨m, isKept', same_trans _ _ _ (covers_same _ _ covered) (excuses_same _ _ excuse)⟩

end Representatives
