import Mathlib.Algebra.BigOperators.Field
import Mathlib.Algebra.BigOperators.Group.Finset.Sigma
import Mathlib.Algebra.BigOperators.Ring.Finset
import Mathlib.Algebra.Order.BigOperators.Group.List
import Mathlib.Algebra.Order.Field.Basic
import Mathlib.Data.Fintype.Basic
import Mathlib.Tactic.FieldSimp
import Mathlib.Tactic.Positivity
import Mathlib.Tactic.Ring

/-!
# Neighbour lists

A directed multigraph over a finite type, given by the list of inward and the list of outward
neighbours of each node. The two are transposes of each other if every arrow stands once in each,
and then sums over one of them are sums over the other. On a graph with arrows between two sides
only, a walk one arrow back and one arrow on, each taken evenly, keeps the weight of the nodes
of a side that it can leave.
-/
namespace Neighbours

variable {ι : Type} [Fintype ι] [DecidableEq ι]

def Transposed (inward outward : ι → List ι) : Prop :=
  ∀ i j, (inward i).count j = (outward j).count i

variable {inward outward : ι → List ι}

omit [Fintype ι] in
theorem Transposed.symm (transposed : Transposed inward outward) : Transposed outward inward :=
  fun i j => (transposed j i).symm

omit [Fintype ι] in
theorem Transposed.mem_iff (transposed : Transposed inward outward) {i j : ι} :
    j ∈ inward i ↔ i ∈ outward j := by
  rw [← List.count_pos_iff, ← List.count_pos_iff, transposed i j]

omit [Fintype ι] in
/-- Lists that are cut down on both sides by the same arrows stay transposes. -/
theorem Transposed.filter (transposed : Transposed inward outward) {keep : ι → ι → Bool}
    (symm : ∀ i j, keep i j = keep j i) :
    Transposed (fun i => (inward i).filter (keep i)) fun i => (outward i).filter (keep i) := by
  intro i j
  cases kept : keep i j with
  | true =>
    rw [List.count_filter kept, List.count_filter (symm i j ▸ kept), transposed i j]
  | false =>
    have absent : j ∉ (inward i).filter (keep i) := by simp [kept]
    have absent' : i ∉ (outward j).filter (keep j) := by simp [symm j i, kept]
    rw [List.count_eq_zero.mpr absent, List.count_eq_zero.mpr absent']

omit [Fintype ι] in
theorem Transposed.of_perm {inward' outward' : ι → List ι} (transposed : Transposed inward outward)
    (order : ∀ i, (inward' i).Perm (inward i)) (order' : ∀ i, (outward' i).Perm (outward i)) :
    Transposed inward' outward' := by
  intro i j
  rw [(order i).count_eq, (order' j).count_eq, transposed i j]

section Sums

variable {K : Type} [CommSemiring K]

theorem sum_map_eq_sum_count (l : List ι) (w : ι → K) :
    (l.map w).sum = ∑ j, (l.count j : K) * w j := by
  induction l with
  | nil => simp
  | cons i l ih =>
    rw [List.map_cons, List.sum_cons, ih]
    have split : ∀ j, (((i :: l).count j : Nat) : K) * w j =
        (if j = i then w j else 0) + (l.count j : K) * w j := by
      intro j
      by_cases same : j = i
      · subst same
        rw [List.count_cons_self, if_pos rfl]
        push_cast
        ring
      · rw [List.count_cons_of_ne (Ne.symm same), if_neg same, zero_add]
    simp only [split, Finset.sum_add_distrib, Finset.sum_ite_eq', Finset.mem_univ, if_true]

/-- Each arrow is counted at its target or at its source. -/
theorem Transposed.sum_comm (transposed : Transposed inward outward) (c w : ι → K) :
    ∑ i, c i * ((inward i).map w).sum = ∑ j, w j * ((outward j).map c).sum := by
  simp only [sum_map_eq_sum_count, Finset.mul_sum]
  rw [Finset.sum_comm]
  refine Finset.sum_congr rfl fun j _ => Finset.sum_congr rfl fun i _ => ?_
  rw [transposed i j]
  ring

omit [Fintype ι] [DecidableEq ι] in
/-- Counting the arrows to the nodes of a side. -/
theorem sum_side {side : ι → Prop} [DecidablePred side] {l : List ι} {within : Prop}
    [Decidable within] (uniform : ∀ i ∈ l, side i ↔ within) :
    (l.map fun i => if side i then (1 : K) else 0).sum = if within then (l.length : K) else 0 := by
  have same : (l.map fun i => if side i then (1 : K) else 0) = l.map fun _ =>
      if within then (1 : K) else 0 :=
    List.map_congr_left fun i member => if_congr (uniform i member) rfl rfl
  rw [same, List.map_const', List.sum_replicate]
  split <;> simp

end Sums

/-! ### A walk back and on -/

variable {K : Type} [Field K] [LinearOrder K] [IsStrictOrderedRing K]

/-- The number of arrows, for a division: one where there are none. -/
def degree (l : List ι) : Nat := max l.length 1

/-- What a node passes on along each outward arrow: the even share of what it gets back along
them, where each neighbour spreads its weight evenly over its inward arrows. -/
def share (inward outward : ι → List ι) (weight : ι → K) (h : ι) : K :=
  ((outward h).map fun i => weight i / degree (inward i)).sum / degree (outward h)

omit [Fintype ι] [DecidableEq ι] in
theorem degree_pos (l : List ι) : (0 : K) < degree l := by
  have positive : 0 < degree l := lt_of_lt_of_le Nat.one_pos (Nat.le_max_right _ _)
  exact_mod_cast positive

omit [Fintype ι] [DecidableEq ι] in
/-- Dividing by the degree and counting the arrows again is no change, but for a node without
any. -/
theorem div_degree_mul_length (l : List ι) (x : K) :
    x / degree l * l.length = if l = [] then 0 else x := by
  cases l with
  | nil => simp
  | cons i l =>
    have same : degree (i :: l) = (i :: l).length :=
      Nat.max_eq_left (Nat.succ_le_succ (Nat.zero_le _))
    have nonzero : (((i :: l).length : Nat) : K) ≠ 0 :=
      Nat.cast_ne_zero.mpr (Nat.succ_ne_zero l.length)
    rw [if_neg (List.cons_ne_nil i l), same, div_mul_cancel₀ x nonzero]

omit [Fintype ι] [DecidableEq ι] in
theorem share_nonneg {weight : ι → K} (nonneg : ∀ i, 0 ≤ weight i) (h : ι) :
    0 ≤ share inward outward weight h := by
  refine div_nonneg (List.sum_nonneg ?_) (degree_pos _).le
  intro x member
  obtain ⟨i, _, rfl⟩ := List.mem_map.mp member
  exact div_nonneg (nonneg i) (degree_pos _).le

omit [Fintype ι] [DecidableEq ι] in
/-- A node passes on all it got. -/
theorem share_mul_length (weight : ι → K) (h : ι) :
    share inward outward weight h * (outward h).length =
    ((outward h).map fun i => weight i / degree (inward i)).sum := by
  rw [share, div_degree_mul_length]
  split
  next empty => simp [empty]
  next => rfl

/-- On a graph with arrows between two sides only, the walk back and on gives the nodes of a side
the weight of those of them that have an arrow to go back on. -/
theorem Transposed.sum_share (transposed : Transposed inward outward) {side : ι → Prop}
    [DecidablePred side] (bipartite : ∀ i, ∀ h ∈ inward i, ¬(side h ↔ side i)) (weight : ι → K) :
    ∑ i with side i, ((inward i).map (share inward outward weight)).sum =
      ∑ i with side i ∧ inward i ≠ [], weight i := by
  have back : ∀ h, ∀ i ∈ outward h, side i ↔ ¬side h := by
    intro h i member
    have other := bipartite i h (transposed.mem_iff.mpr member)
    tauto
  have on : ∀ i, ∀ h ∈ inward i, ¬side h ↔ side i := by
    intro i h member
    have other := bipartite i h member
    tauto
  -- sums over arrows are turned round twice, so the weight comes back to where it was taken from
  calc ∑ i with side i, ((inward i).map (share inward outward weight)).sum
      = ∑ i, (if side i then 1 else 0) * ((inward i).map (share inward outward weight)).sum := by
        simp only [Finset.sum_filter, ite_mul, one_mul, zero_mul]
    _ = ∑ h, share inward outward weight h *
      ((outward h).map fun i => if side i then (1 : K) else 0).sum :=
        transposed.sum_comm _ _
    _ = ∑ h, (if ¬side h then 1 else 0) *
      ((outward h).map fun i => weight i / degree (inward i)).sum := by
        refine Finset.sum_congr rfl fun h _ => ?_
        rw [sum_side (back h), ← share_mul_length]
        split <;> simp
    _ = ∑ i, weight i / degree (inward i) *
      ((inward i).map fun h => if ¬side h then (1 : K) else 0).sum :=
        transposed.symm.sum_comm _ _
    _ = ∑ i, if side i ∧ inward i ≠ [] then weight i else 0 := by
        refine Finset.sum_congr rfl fun i _ => ?_
        rw [sum_side (on i)]
        by_cases within : side i
        · rw [if_pos within, div_degree_mul_length]
          by_cases empty : inward i = [] <;> simp [within, empty]
        · simp [within]
    _ = ∑ i with side i ∧ inward i ≠ [], weight i := (Finset.sum_filter _ _).symm

/-! ### Renumbering -/

section Renumbering

variable {κ : Type}

/-- The neighbours of the renumbered nodes are the renumbered neighbours, in some order. -/
def Renumbers (number : ι → κ) (links : ι → List ι) (links' : κ → List κ) : Prop :=
  ∀ i, (links' (number i)).Perm ((links i).map number)

variable {number : ι → κ} {links back : ι → List ι} {links' back' : κ → List κ}

omit [Fintype ι] [DecidableEq ι] in
theorem Renumbers.length_eq (renumbers : Renumbers number links links') (i : ι) :
    (links' (number i)).length = (links i).length := by
  rw [(renumbers i).length_eq, List.length_map]

omit [Fintype ι] [DecidableEq ι] in
theorem Renumbers.filter (renumbers : Renumbers number links links') {keep : ι → ι → Bool}
    {keep' : κ → κ → Bool} (same : ∀ i j, keep' (number i) (number j) = keep i j) :
    Renumbers number (fun i => (links i).filter (keep i)) fun i => (links' i).filter (keep' i) := by
  intro i
  have kept : (keep' (number i)) ∘ number = keep i := funext (same i)
  simpa only [List.filter_map, kept] using (renumbers i).filter (keep' (number i))

omit [Fintype ι] [DecidableEq ι] in
theorem Renumbers.of_perm {shown : ι → List ι} {shown' : κ → List κ}
    (renumbers : Renumbers number links links') (order : ∀ i, (shown i).Perm (links i))
    (order' : ∀ i, (shown' i).Perm (links' i)) : Renumbers number shown shown' :=
  fun i => ((order' (number i)).trans (renumbers i)).trans ((order i).map number).symm

omit [Fintype ι] [DecidableEq ι] [LinearOrder K] [IsStrictOrderedRing K] in
theorem Renumbers.sum_map (renumbers : Renumbers number links links') {w : ι → K} {w' : κ → K}
    (same : ∀ i, w' (number i) = w i) (i : ι) :
    ((links' (number i)).map w').sum = ((links i).map w).sum := by
  rw [((renumbers i).map w').sum_eq, List.map_map]
  exact congrArg List.sum (List.map_congr_left fun j _ => same j)

omit [Fintype ι] [DecidableEq ι] [LinearOrder K] [IsStrictOrderedRing K] in
/-- The share of a node does not depend on the numbers of the nodes, nor on the order of its
neighbours. -/
theorem Renumbers.share (renumbers : Renumbers number links links')
    (renumbers' : Renumbers number back back') {weight : ι → K} {weight' : κ → K}
    (same : ∀ i, weight' (number i) = weight i) (h : ι) :
    share links' back' weight' (number h) = share links back weight h := by
  let even' : κ → K := fun i => weight' i / degree (links' i)
  have even : ∀ i, even' (number i) = weight i / degree (links i) := by
    intro i
    simp only [even', same, degree, renumbers.length_eq]
  have total := renumbers'.sum_map even h
  rw [Neighbours.share, Neighbours.share, ← total, degree, degree, renumbers'.length_eq]

end Renumbering

end Neighbours
