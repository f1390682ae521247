import Mathlib.Data.List.Perm.Subperm

/-!
# Bags that change one element at a time

A bag is a list in any order. A move adds an element to it, or puts an element in the place of
another, or leaves it as it is. Two elements may clash; an element that is added clashes with
none, one that takes another's place may. Which elements a bag has in the end, and whether two
of them clash, is read off the moves.
-/
namespace Exchange

variable {α : Type} [DecidableEq α]

inductive Move (α : Type)
  | stay
  | add (x : α)
  | swap (x stored : α)
  deriving DecidableEq, Repr

namespace Move

def apply (bag : List α) : Move α → List α
  | stay => bag
  | add x => x :: bag
  | swap x stored => x :: bag.erase stored

/-- The element comes into the bag. -/
def Enters (x : α) : Move α → Prop
  | stay => False
  | add y => y = x
  | swap y _ => y = x

/-- The element gives its place to another. -/
def Evicts (x : α) : Move α → Prop
  | stay => False
  | add _ => False
  | swap _ stored => stored = x

variable {bag : List α} {x : α} {move : Move α}

theorem count_apply (other : ¬move.Enters x) (stays : ¬move.Evicts x) :
    (move.apply bag).count x = bag.count x := by
  cases move with
  | stay => rfl
  | add y => exact List.count_cons_of_ne other
  | swap y stored =>
    rw [apply, List.count_cons_of_ne other, List.count_erase_of_ne (Ne.symm stays)]

theorem count_apply_evicted (other : ¬move.Enters x) (evicted : move.Evicts x) :
    (move.apply bag).count x = bag.count x - 1 := by
  cases move with
  | stay => cases evicted
  | add y => cases evicted
  | swap y stored =>
    cases evicted
    rw [apply, List.count_cons_of_ne other, List.count_erase_self]

theorem count_apply_entered (absent : x ∉ bag) (enters : move.Enters x) :
    (move.apply bag).count x = 1 := by
  cases move with
  | stay => cases enters
  | add y =>
    cases enters
    rw [apply, List.count_cons_self, List.count_eq_zero.mpr absent]
  | swap y stored =>
    cases enters
    have gone : x ∉ bag.erase stored := fun member => absent (List.mem_of_mem_erase member)
    rw [apply, List.count_cons_self, List.count_eq_zero.mpr gone]

end Move

/-- The bags of a run, each with the move made in it, and the bag in the end. -/
inductive Run : List α → List (List α × Move α) → List α → Prop
  | done {bag final : List α} (order : final.Perm bag) : Run bag [] final
  | move {bag after final : List α} {made : Move α} {later : List (List α × Move α)}
      (order : after.Perm (made.apply bag)) (rest : Run after later final) :
      Run bag ((bag, made) :: later) final

variable {bag final : List α} {rounds : List (List α × Move α)} {x : α}

/-! ### What stays in the bag -/

/-- An element that does not come into the bag does not become more. -/
theorem Run.count_le (run : Run bag rounds final) (never : ∀ round ∈ rounds, ¬round.2.Enters x) :
    final.count x ≤ bag.count x := by
  induction run with
  | done order => exact Nat.le_of_eq (order.count_eq x)
  | @move bag after final made later order _ ih =>
    rw [List.forall_mem_cons] at never
    refine Nat.le_trans (ih never.2) ?_
    rw [order.count_eq]
    by_cases evicted : made.Evicts x
    · rw [Move.count_apply_evicted never.1 evicted]
      exact Nat.sub_le _ _
    · exact Nat.le_of_eq (Move.count_apply never.1 evicted)

/-- An element that is there once, and does not come again, stays unless it gives its place away. -/
theorem Run.mem_iff_of_once (run : Run bag rounds final)
    (never : ∀ round ∈ rounds, ¬round.2.Enters x) (once : bag.count x = 1) :
    x ∈ final ↔ ∀ round ∈ rounds, ¬round.2.Evicts x := by
  induction run with
  | done order => simpa [order.mem_iff] using List.count_pos_iff.mp (once ▸ Nat.one_pos)
  | @move bag after final made later order rest ih =>
    rw [List.forall_mem_cons] at never ⊢
    by_cases evicted : made.Evicts x
    · -- it was there once, and is gone
      have left : (made.apply bag).count x = 1 - 1 := by
        rw [Move.count_apply_evicted never.1 evicted, once]
      have gone : final.count x ≤ 0 := Nat.le_trans (rest.count_le never.2)
        (Nat.le_of_eq ((order.count_eq x).trans left))
      have absent : x ∉ final := List.count_eq_zero.mp (Nat.le_zero.mp gone)
      exact iff_of_false absent fun stays => stays.1 evicted
    · rw [and_iff_right evicted]
      apply ih never.2
      rw [order.count_eq, Move.count_apply never.1 evicted, once]

theorem Run.not_mem (run : Run bag rounds final) (never : ∀ round ∈ rounds, ¬round.2.Enters x)
    (absent : x ∉ bag) : x ∉ final := by
  rw [← List.count_eq_zero] at absent ⊢
  exact Nat.le_zero.mp (absent ▸ run.count_le never)

/-- An element that has its turn in the first round is kept exactly if it comes in then and does
not give its place away later. -/
theorem Run.mem_iff_of_new {made : Move α} (run : Run bag ((bag, made) :: rounds) final)
    (absent : x ∉ bag) (never : ∀ round ∈ rounds, ¬round.2.Enters x) :
    x ∈ final ↔ made.Enters x ∧ ∀ round ∈ rounds, ¬round.2.Evicts x := by
  by_cases enters : made.Enters x
  · rw [and_iff_right enters]
    cases run with
    | move order rest =>
      apply rest.mem_iff_of_once never
      rw [order.count_eq, Move.count_apply_entered absent enters]
  · have missing : x ∉ final := run.not_mem (List.forall_mem_cons.mpr ⟨enters, never⟩) absent
    exact iff_of_false missing fun kept => enters kept.1

/-! ### Clashes -/

section Clash

variable {clash : α → α → Prop} {a b : α}

omit [DecidableEq α] in
/-- No two elements of a bag clash if no two that are there at once do. -/
theorem pairwise_iff_subperm (symm : ∀ a b, clash a b → clash b a) :
    bag.Pairwise (fun a b => ¬clash a b) ↔ ∀ a b, [a, b].Subperm bag → ¬clash a b := by
  rw [List.pairwise_iff_forall_sublist]
  constructor
  · -- the two elements stand in the list in one order or the other
    rintro apart a b ⟨pair, order, sublist⟩ clashes
    have pairwise : pair.Pairwise fun a b => ¬clash a b :=
      List.pairwise_iff_forall_sublist.mpr fun shorter => apart (shorter.trans sublist)
    rw [order.pairwise_iff fun other clashes => other (symm _ _ clashes)] at pairwise
    exact List.rel_of_pairwise_cons pairwise List.mem_cons_self clashes
  · intro apart a b sublist
    exact apart a b sublist.subperm

theorem subperm_cons_pair (both : [a, b].Subperm (x :: bag)) :
    [a, b].Subperm bag ∨ a = x ∧ b ∈ bag ∨ b = x ∧ a ∈ bag := by
  by_cases first : a = x
  · subst first
    exact .inr (.inl ⟨rfl, List.singleton_subperm_iff.mp ((List.subperm_cons a).mp both)⟩)
  by_cases second : b = x
  · subst second
    have swapped : [b, a].Subperm (b :: bag) := (List.Perm.swap b a []).subperm_right.mp both
    exact .inr (.inr ⟨rfl, List.singleton_subperm_iff.mp ((List.subperm_cons b).mp swapped)⟩)
  · -- both elements are in the rest
    left
    rw [List.subperm_ext_iff] at both ⊢
    intro y member
    have other : y ≠ x := by
      rcases List.mem_pair.mp member with rfl | rfl
      · exact first
      · exact second
    have fewer := both y member
    rwa [List.count_cons_of_ne (Ne.symm other)] at fewer

/-- A move that gives the place of one of two elements away, so that they are not there at
once any more. -/
def Breaks (a b : α) : List α × Move α → Prop
  | (bag, .swap x stored) => ¬[a, b].Subperm (x :: bag.erase stored)
  | _ => False

@[simp] theorem breaks_stay : ¬Breaks a b (bag, .stay) := id

@[simp] theorem breaks_add : ¬Breaks a b (bag, .add x) := id

@[simp] theorem breaks_swap {stored : α} :
    Breaks a b (bag, .swap x stored) ↔ ¬[a, b].Subperm (x :: bag.erase stored) := Iff.rfl

/-- Wherever an element takes another's place and clashes with a third one, a later move breaks
the two up. -/
def Settled (clash : α → α → Prop) : List (List α × Move α) → Prop
  | [] => True
  | (bag, .swap x stored) :: later =>
    (∀ other ∈ bag.erase stored, clash x other → ∃ round ∈ later, Breaks x other round) ∧
      Settled clash later
  | _ :: later => Settled clash later

theorem Breaks.symm {round : List α × Move α} (breaks : Breaks a b round) : Breaks b a round := by
  obtain ⟨bag, made⟩ := round
  cases made with
  | swap x stored => exact fun both => breaks ((List.Perm.swap a b []).subperm_right.mp both)
  | _ => cases breaks

/-- Where no added element clashes with one in the bag, the elements of the final bag do not
clash exactly if the moves settle the clashes of the first bag and all that come up. -/
theorem Run.pairwise_iff (symm : ∀ a b, clash a b → clash b a) (run : Run bag rounds final)
    (fresh : ∀ round ∈ rounds, ∀ x, round.2 = .add x → ∀ other ∈ round.1, ¬clash x other) :
    final.Pairwise (fun a b => ¬clash a b) ↔
      (∀ a b, [a, b].Subperm bag → clash a b → ∃ round ∈ rounds, Breaks a b round) ∧
        Settled clash rounds := by
  induction run with
  | done order =>
    have same : ∀ a b, [a, b].Subperm _ ↔ [a, b].Subperm _ :=
      fun a b => order.subperm_left (l := [a, b])
    simp [pairwise_iff_subperm symm, same, Settled, imp_not_comm]
  | @move bag after final made later order rest ih =>
    rw [List.forall_mem_cons] at fresh
    rw [ih fresh.2]
    have same : ∀ a b, [a, b].Subperm after ↔ [a, b].Subperm (made.apply bag) :=
      fun a b => order.subperm_left
    simp only [same, List.exists_mem_cons_iff]
    cases made with
    | stay => simp only [Move.apply, breaks_stay, false_or, Settled]
    | add x =>
      have new : ∀ other ∈ bag, ¬clash x other := fresh.1 x rfl
      simp only [Move.apply, breaks_add, false_or, Settled]
      refine and_congr_left fun _ => ⟨fun known a b both => known a b (both.trans ?_), ?_⟩
      · exact (List.sublist_cons_self x bag).subperm
      · intro known a b both clashes
        rcases subperm_cons_pair both with old | ⟨rfl, member⟩ | ⟨rfl, member⟩
        · exact known a b old clashes
        · exact absurd clashes (new b member)
        · exact absurd (symm _ _ clashes) (new a member)
    | swap x stored =>
      simp only [Move.apply, breaks_swap, Settled]
      rw [← and_assoc]
      refine and_congr_left fun _ => ⟨fun known => ⟨?_, ?_⟩, ?_⟩
      · -- a pair from before is there after the move too, or the move breaks it up
        intro a b both clashes
        by_cases kept : [a, b].Subperm (x :: bag.erase stored)
        · exact .inr (known a b kept clashes)
        · exact .inl kept
      · intro other member clashes
        exact known x other ((List.subperm_cons x).mpr (List.singleton_subperm_iff.mpr member))
          clashes
      · rintro ⟨old, new⟩ a b both clashes
        rcases subperm_cons_pair both with before | ⟨rfl, member⟩ | ⟨rfl, member⟩
        · rcases old a b (before.trans (List.erase_subperm stored bag)) clashes with broken | later
          · exact absurd both broken
          · exact later
        · exact new b member clashes
        · obtain ⟨round, member, breaks⟩ := new a member (symm _ _ clashes)
          exact ⟨round, member, breaks.symm⟩

end Clash

end Exchange
