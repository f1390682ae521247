import Mathlib.Data.List.Basic

/-!
# Removing from a vector in place

An index runs over a vector up to a bound. An element that has to go is swapped with the last one
in front of the bound, the bound goes down by one, and the index stays where it is; at the end the
vector is cut at the bound. Index and bound are machine words, every access is checked, and the test
of an element may fail as well. In each round the vector is made of what was kept, what is still to
be looked at, and what is gone.
-/
namespace SwapRemove

/-- A vector, whose size is a machine word. -/
structure Vec (α : Type) where
  items : List α
  sized : items.length < UInt64.size

variable {α : Type}

def Vec.size (v : Vec α) : UInt64 := UInt64.ofNat v.items.length

/-- The first `size` elements. -/
def resize (items : List α) (size : UInt64) : Vec α :=
  ⟨items.take size.toNat, Nat.lt_of_le_of_lt (List.length_take_le _ _) size.toNat_lt⟩

/-- `std::swap` of two elements; `none` is an access out of bounds. -/
def swap (items : List α) (i j : Nat) : Option (List α) :=
  match items[i]?, items[j]? with
  | some x, some y => some ((items.set i y).set j x)
  | _, _ => none

structure State (α : Type) where
  items : List α
  index : UInt64
  bound : UInt64

/-- The body of the loop. After a removal the index is decremented, perhaps below zero, and
incremented again. -/
def round (removed : α → Option Bool) (s : State α) : Option (State α) :=
  (s.items[s.index.toNat]?).bind fun item =>
    (removed item).bind fun gone =>
      if gone then
        let items := if s.index ≠ s.bound - 1 then swap s.items s.index.toNat (s.bound - 1).toNat
          else some s.items
        items.map fun items => ⟨items, s.index - 1 + 1, s.bound - 1⟩
      else some ⟨s.items, s.index + 1, s.bound⟩

/-- The loop, `none` also if it has not ended when the fuel is used up. -/
def loop (removed : α → Option Bool) : Nat → State α → Option (State α)
  | 0, s => if s.index < s.bound then none else some s
  | fuel + 1, s => if s.index < s.bound then (round removed s).bind (loop removed fuel) else some s

def filterInPlace (removed : α → Option Bool) (v : Vec α) : Option (Vec α) :=
  (loop removed v.items.length ⟨v.items, 0, v.size⟩).map fun s => resize s.items s.bound

/-! ### What is left -/

/-- What the loop leaves of the elements that are still to be looked at. -/
def remaining (removed : α → Bool) : Nat → List α → List α
  | _, [] => []
  | 0, _ :: _ => []
  | fuel + 1, item :: rest =>
    if removed item then
      match rest.getLast? with
      | none => []
      | some last => remaining removed fuel (last :: rest.dropLast)
    else item :: remaining removed fuel rest

theorem remaining_perm {removed : α → Bool} {fuel : Nat} {items : List α}
    (enough : items.length ≤ fuel) :
    (remaining removed fuel items).Perm (items.filter fun item => !removed item) := by
  induction fuel generalizing items with
  | zero =>
    have empty : items = [] := List.length_eq_zero_iff.mp (Nat.le_zero.mp enough)
    subst empty
    exact List.Perm.refl _
  | succ fuel ih =>
    cases items with
    | nil => exact List.Perm.refl _
    | cons item rest =>
      have shorter : rest.length ≤ fuel := Nat.le_of_succ_le_succ enough
      rw [remaining]
      -- either way one element less is to be looked at
      by_cases gone : removed item = true
      · rw [if_pos gone, List.filter_cons_of_neg (by simp [gone])]
        rcases List.eq_nil_or_concat rest with rfl | ⟨front, last, rfl⟩
        · exact List.Perm.refl _
        · -- the last element takes the turn of the one that is removed
          rw [List.concat_eq_append] at shorter ⊢
          have order : (last :: front).Perm (front ++ [last]) :=
            (List.perm_append_singleton last front).symm
          rw [List.getLast?_concat, List.dropLast_concat]
          exact (ih (by simpa using shorter)).trans (order.filter _)
      · rw [if_neg gone, List.filter_cons_of_pos (by simp [gone])]
        exact (ih shorter).cons item

theorem remaining_map {β : Type} {removed : α → Bool} {removed' : β → Bool} {f : α → β}
    (same : ∀ item, removed' (f item) = removed item) (fuel : Nat) (items : List α) :
    remaining removed' fuel (items.map f) = (remaining removed fuel items).map f := by
  induction fuel generalizing items with
  | zero => cases items <;> rfl
  | succ fuel ih =>
    cases items with
    | nil => rfl
    | cons item rest =>
      simp only [List.map_cons, remaining, same, List.getLast?_map]
      split
      · cases rest.getLast? with
        | none => rfl
        | some last =>
          have turn := ih (last :: rest.dropLast)
          simpa [List.map_dropLast] using turn
      · rw [ih, List.map_cons]

/-! ### The loop -/

/-- The vector of a round: what was kept, what is to be looked at, and what is gone. -/
structure Split (s : State α) (kept todo gone : List α) : Prop where
  items : s.items = kept ++ todo ++ gone
  index : s.index.toNat = kept.length
  bound : s.bound.toNat = kept.length + todo.length

theorem swap_split (kept : List α) (x y : α) (front gone : List α) :
    swap (kept ++ (x :: (front ++ [y])) ++ gone) kept.length (kept.length + front.length + 1) =
      some (kept ++ (y :: front) ++ (x :: gone)) := by
  have first : (kept ++ (x :: (front ++ [y])) ++ gone)[kept.length]? = some x := by simp
  have last : (kept ++ (x :: (front ++ [y])) ++ gone)[kept.length + front.length + 1]? =
      some y := by
    simp [Nat.add_assoc]
  rw [swap, first, last]
  simp [Nat.add_assoc]

section Loop

variable {removed : α → Option Bool} {drops : α → Bool} {s : State α} {kept todo gone : List α}

theorem Split.running (split : Split s kept todo gone) : s.index < s.bound ↔ todo ≠ [] := by
  rw [UInt64.lt_iff_toNat_lt, split.index, split.bound, List.ne_nil_iff_length_pos]
  omega

/-- An element that stays. -/
theorem round_keep {x : α} {rest : List α} (split : Split s kept (x :: rest) gone)
    (stays : removed x = some false) :
    ∃ s', round removed s = some s' ∧ Split s' (kept ++ [x]) rest gone := by
  have found : s.items[s.index.toNat]? = some x := by simp [split.items, split.index]
  refine ⟨⟨s.items, s.index + 1, s.bound⟩, ?_, ?_, ?_, ?_⟩
  · simp [round, found, stays]
  · simp [split.items]
  · -- the index stays below the bound, which is a machine word
    have room := s.bound.toNat_lt
    have bound := split.bound
    have index := split.index
    rw [List.length_cons] at bound
    rw [UInt64.toNat_add, show (1 : UInt64).toNat = 1 from rfl, List.length_append,
      List.length_singleton]
    omega
  · have bound := split.bound
    simp only [List.length_append, List.length_cons, List.length_nil] at bound ⊢
    omega

private theorem bound_pred {x : α} {rest : List α} (split : Split s kept (x :: rest) gone) :
    (s.bound - 1).toNat = kept.length + rest.length := by
  have bound := split.bound
  rw [List.length_cons] at bound
  have one : (1 : UInt64) ≤ s.bound := by
    rw [UInt64.le_iff_toNat_le, show (1 : UInt64).toNat = 1 from rfl]
    omega
  rw [UInt64.toNat_sub_of_le _ _ one, show (1 : UInt64).toNat = 1 from rfl]
  omega

/-- The last element is removed without a swap. -/
theorem round_last {x : α} (split : Split s kept [x] gone) (goes : removed x = some true) :
    ∃ s', round removed s = some s' ∧ Split s' kept [] (x :: gone) := by
  have found : s.items[s.index.toNat]? = some x := by simp [split.items, split.index]
  have pred := bound_pred split
  have last : s.index = s.bound - 1 := by
    rw [← UInt64.toNat_inj, pred, split.index]
    rfl
  refine ⟨⟨s.items, s.index - 1 + 1, s.bound - 1⟩, ?_, ?_, ?_, pred⟩
  · simp only [round, found, goes, Option.bind_some, if_true]
    rw [if_neg (not_not.mpr last)]
    rfl
  · simp [split.items]
  · rw [UInt64.sub_add_cancel, split.index]

/-- The last element takes the place of one that is removed. -/
theorem round_swap {x y : α} {front : List α} (split : Split s kept (x :: (front ++ [y])) gone)
    (goes : removed x = some true) :
    ∃ s', round removed s = some s' ∧ Split s' kept (y :: front) (x :: gone) := by
  have found : s.items[s.index.toNat]? = some x := by simp [split.items, split.index]
  have pred := bound_pred split
  rw [List.length_append, List.length_singleton] at pred
  -- `y` stands behind `x`, so the bound does not meet the index
  have inner : s.index ≠ s.bound - 1 := by
    rw [Ne, ← UInt64.toNat_inj, pred, split.index]
    omega
  refine ⟨⟨kept ++ (y :: front) ++ (x :: gone), s.index - 1 + 1, s.bound - 1⟩, ?_, rfl, ?_, ?_⟩
  · simp only [round, found, goes, Option.bind_some, if_true, if_pos inner]
    rw [split.index, pred, split.items, ← Nat.add_assoc, swap_split]
    rfl
  · rw [UInt64.sub_add_cancel, split.index]
  · rw [pred, List.length_cons]

/-- The loop ends, every access is in bounds, and up to the bound stands what is left. -/
theorem loop_split {fuel : Nat} (split : Split s kept todo gone) (enough : todo.length ≤ fuel)
    (tests : ∀ x ∈ todo, removed x = some (drops x)) :
    ∃ s', loop removed fuel s = some s' ∧
      s'.items.take s'.bound.toNat = kept ++ remaining drops todo.length todo := by
  induction fuel generalizing s kept todo gone with
  | zero =>
    have empty : todo = [] := List.length_eq_zero_iff.mp (Nat.le_zero.mp enough)
    subst empty
    have ended : ¬s.index < s.bound := fun less => split.running.mp less rfl
    refine ⟨s, if_neg ended, ?_⟩
    simp [split.items, split.bound, remaining]
  | succ fuel ih =>
    cases todo with
    | nil =>
      have ended : ¬s.index < s.bound := fun less => split.running.mp less rfl
      refine ⟨s, if_neg ended, ?_⟩
      simp [split.items, split.bound, remaining]
    | cons x rest =>
      obtain ⟨test, tests⟩ := List.forall_mem_cons.mp tests
      have shorter : rest.length ≤ fuel := Nat.le_of_succ_le_succ enough
      rw [loop, if_pos (split.running.mpr (List.cons_ne_nil x rest)), List.length_cons, remaining]
      cases goes : drops x with
      | false =>
        -- `x` joins what was kept
        obtain ⟨middle, taken, split⟩ := round_keep split (test.trans (congrArg some goes))
        obtain ⟨s', ran, left⟩ := ih split shorter tests
        refine ⟨s', by rw [taken, Option.bind_some, ran], ?_⟩
        simpa using left
      | true =>
        -- `x` joins what is gone, and the last element takes its turn if there is one
        rcases List.eq_nil_or_concat' rest with rfl | ⟨front, last, rfl⟩
        · obtain ⟨middle, taken, split⟩ := round_last split (test.trans (congrArg some goes))
          obtain ⟨s', ran, left⟩ := ih split (Nat.zero_le _) tests
          refine ⟨s', by rw [taken, Option.bind_some, ran], ?_⟩
          simpa [remaining] using left
        · obtain ⟨middle, taken, split⟩ := round_swap split (test.trans (congrArg some goes))
          have turn : ∀ y ∈ last :: front, removed y = some (drops y) := fun y member =>
            tests y (by simpa [or_comm] using member)
          obtain ⟨s', ran, left⟩ := ih split (by simpa using shorter) turn
          refine ⟨s', by rw [taken, Option.bind_some, ran], ?_⟩
          simpa using left

theorem filterInPlace_eq {v : Vec α} (drops : α → Bool)
    (tests : ∀ x ∈ v.items, removed x = some (drops x)) :
    ∃ v', filterInPlace removed v = some v' ∧
      v'.items = remaining drops v.items.length v.items := by
  have split : Split ⟨v.items, 0, v.size⟩ [] v.items [] := by
    refine ⟨by simp, rfl, ?_⟩
    rw [Vec.size, UInt64.toNat_ofNat_of_lt' v.sized, List.length_nil, Nat.zero_add]
  obtain ⟨s', ran, left⟩ := loop_split split (Nat.le_refl _) tests
  exact ⟨resize s'.items s'.bound, by rw [filterInPlace, ran, Option.map_some], left⟩

end Loop

end SwapRemove
