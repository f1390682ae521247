import Tlgs.Base.Neighbours
import Tlgs.Base.SwapRemove
import Mathlib.Data.List.FinRange
import Mathlib.Algebra.BigOperators.Fin
import Mathlib.Data.Fin.VecNotation
import Mathlib.Tactic.NormNum

/-!
# `salsaRank`

The ranking of `search.cpp`, with `float` and `double` read as exact rationals. A vector of
vectors of indices in range is a function from the nodes to lists of nodes.
-/
namespace Tlgs

open Neighbours

structure Graph (n : Nat) where
  inNeighbous : Fin n → List (Fin n)
  outNeighbous : Fin n → List (Fin n)

namespace Graph

variable {n : Nat} (g : Graph n)

/-- The links in the two lists are the same. -/
def Consistent : Prop := Transposed g.inNeighbous g.outNeighbous

/-- Hubs are nodes with at least as many outbound links as inbound links. -/
def isAuth (i : Fin n) : Bool := decide ((g.inNeighbous i).length > (g.outNeighbous i).length)

def numAuths : Nat := (List.finRange n).countP g.isAuth

def numHubs : Nat := (List.finRange n).countP fun i => !g.isAuth i

/-- The loop that removes links: the list is what stands from `j` up to `size`. A link that is
removed is swapped with the last one, which takes its turn instead. -/
def removeLoop (removed : Fin n → Bool) : Nat → List (Fin n) → List (Fin n)
  | _, [] => []
  | 0, _ :: _ => []
  | fuel + 1, idx :: rest =>
    if removed idx then
      match rest.getLast? with
      | none => []
      | some last => removeLoop removed fuel (last :: rest.dropLast)
    else idx :: removeLoop removed fuel rest

/-- Each round of the loop makes the list shorter by one. -/
def removeLinks (removed : Fin n → Bool) (links : List (Fin n)) : List (Fin n) :=
  removeLoop removed links.length links

/-- Turn the network into a bipartite graph. -/
def bipartite : Graph n where
  inNeighbous i := removeLinks (fun idx => g.isAuth idx == g.isAuth i) (g.inNeighbous i)
  outNeighbous i := removeLinks (fun idx => g.isAuth idx == g.isAuth i) (g.outNeighbous i)

end Graph

/-! ### One iteration -/

/-- `std::accumulate` over the neighbours, each value computed once: the sum, and the values
that are known then. -/
def accumulateMemo {n : Nat} (compute : Fin n → ℚ) :
    (Fin n → ℚ) → ℚ → List (Fin n) → ℚ × (Fin n → ℚ)
  | known, sum, [] => (sum, known)
  | known, sum, idx :: rest =>
    if known idx = -1 then
      accumulateMemo compute (Function.update known idx (compute idx)) (sum + compute idx) rest
    else accumulateMemo compute known (sum + known idx) rest

/-- What a node shares of the scores behind one kind of its links. -/
def neighbourScore {n : Nat} (links back : Fin n → List (Fin n)) (score : Fin n → ℚ) (idx : Fin n) :
    ℚ :=
  (links idx).foldl (fun sum idx2 => sum + score idx2 / (max (back idx2).length 1 : Nat)) 0 /
    (max (links idx).length 1 : Nat)

/-- The vectors that a pass over the nodes writes. -/
structure Sweep (n : Nat) where
  newScore : Fin n → ℚ
  localInScore : Fin n → ℚ
  localOutScore : Fin n → ℚ

def sweepNode {n : Nat} (g : Graph n) (isAuth : Fin n → Bool) (score : Fin n → ℚ) (sweep : Sweep n)
    (i : Fin n) : Sweep n :=
  if isAuth i then
    let (total, known) := accumulateMemo (neighbourScore g.outNeighbous g.inNeighbous score)
      sweep.localOutScore 0 (g.inNeighbous i)
    { sweep with newScore := Function.update sweep.newScore i total, localOutScore := known }
  else
    let (total, known) := accumulateMemo (neighbourScore g.inNeighbous g.outNeighbous score)
      sweep.localInScore 0 (g.outNeighbous i)
    { sweep with newScore := Function.update sweep.newScore i total, localInScore := known }

structure Scores (n : Nat) where
  score : Fin n → ℚ
  newScore : Fin n → ℚ
  scoreDelta : ℚ

def salsaIteration {n : Nat} (g : Graph n) (isAuth : Fin n → Bool) (s : Scores n) : Scores n :=
  let sweep := (List.finRange n).foldl (sweepNode g isAuth s.score)
    ⟨s.newScore, fun _ => -1, fun _ => -1⟩
  let sum := max ((List.finRange n).foldl (fun sum i => sum + s.score i) 0) 1
  { score := fun i => sweep.newScore i / sum
    newScore := sweep.newScore
    scoreDelta := (List.finRange n).foldl
      (fun delta i => delta + |sweep.newScore i / sum - s.score i|) 0 }

/-! ### The iterations -/

def salsaLoop {n : Nat} (g : Graph n) (isAuth : Fin n → Bool) : Nat → Scores n → Scores n
  | 0, s => s
  | fuel + 1, s =>
    if s.scoreDelta > 1 / 100 then salsaLoop g isAuth fuel (salsaIteration g isAuth s) else s

/-- The scores before the first iteration. `max_digits10` of a `float` is 9. -/
def salsaStart {n : Nat} (g : Graph n) : Scores n where
  score i := 1 / (if g.isAuth i then g.numAuths else g.numHubs : Nat)
  newScore _ := 0
  scoreDelta := 9

def salsaRank {n : Nat} (g : Graph n) : Fin n → ℚ :=
  (salsaLoop g.bipartite g.isAuth 300 (salsaStart g)).score

/-! ### The bipartite graph -/

namespace Graph

variable {n : Nat} {g : Graph n}

theorem removeLoop_eq (removed : Fin n → Bool) (fuel : Nat) (links : List (Fin n)) :
    removeLoop removed fuel links = SwapRemove.remaining removed fuel links := by
  induction fuel generalizing links with
  | zero => cases links <;> rfl
  | succ fuel ih =>
    cases links with
    | nil => rfl
    | cons idx rest =>
      simp only [removeLoop, SwapRemove.remaining, ih]
      cases rest.getLast? <;> rfl

theorem removeLinks_eq (removed : Fin n → Bool) (links : List (Fin n)) :
    removeLinks removed links = SwapRemove.remaining removed links.length links :=
  removeLoop_eq removed links.length links

theorem removeLinks_perm (removed : Fin n → Bool) (links : List (Fin n)) :
    (removeLinks removed links).Perm (links.filter fun idx => !removed idx) :=
  removeLinks_eq removed links ▸ SwapRemove.remaining_perm (Nat.le_refl _)

theorem bipartite_consistent (consistent : g.Consistent) : g.bipartite.Consistent := by
  have filtered : Transposed
      (fun i => (g.inNeighbous i).filter fun idx => !(g.isAuth idx == g.isAuth i))
      fun i => (g.outNeighbous i).filter fun idx => !(g.isAuth idx == g.isAuth i) :=
    Transposed.filter consistent fun i j => by rw [Bool.beq_comm]
  exact filtered.of_perm (fun i => removeLinks_perm _ _) fun i => removeLinks_perm _ _

/-- What is left of the links leads from one side to the other. -/
theorem bipartite_sides (i : Fin n) :
    ∀ h ∈ g.bipartite.inNeighbous i, ¬(g.isAuth h = true ↔ g.isAuth i = true) := by
  intro h member same
  have kept := (removeLinks_perm _ _).mem_iff.mp member
  have equal : g.isAuth h = g.isAuth i := Bool.eq_iff_iff.mpr same
  simp [equal] at kept

end Graph

/-! ### What an iteration computes -/

section Iteration

variable {n : Nat} {g : Graph n} {isAuth : Fin n → Bool} {score : Fin n → ℚ}

theorem foldl_add (f : Fin n → ℚ) (start : ℚ) (l : List (Fin n)) :
    l.foldl (fun sum i => sum + f i) start = start + (l.map f).sum := by
  induction l generalizing start with
  | nil => simp
  | cons i l ih => rw [List.foldl_cons, ih, List.map_cons, List.sum_cons, add_assoc]

theorem neighbourScore_eq (links back : Fin n → List (Fin n)) (score : Fin n → ℚ) :
    neighbourScore links back score = share back links score := by
  funext idx
  rw [neighbourScore, foldl_add, zero_add]
  rfl

/-- A value that is known is the one that would be computed. -/
def Known (compute known : Fin n → ℚ) : Prop := ∀ idx, known idx = -1 ∨ known idx = compute idx

theorem accumulateMemo_eq {compute known : Fin n → ℚ} (sound : Known compute known) (sum : ℚ)
    (l : List (Fin n)) :
    (accumulateMemo compute known sum l).1 = sum + (l.map compute).sum ∧
      Known compute (accumulateMemo compute known sum l).2 := by
  induction l generalizing known sum with
  | nil => exact ⟨by simp [accumulateMemo], sound⟩
  | cons idx l ih =>
    rw [accumulateMemo, List.map_cons, List.sum_cons, ← add_assoc]
    split
    next unknown =>
      apply ih
      intro other
      by_cases same : other = idx
      · subst same
        exact .inr (Function.update_self _ _ _)
      · rw [Function.update_of_ne same]
        exact sound other
    next found =>
      -- the sentinel is no value of a known one
      rw [(sound idx).resolve_left found]
      exact ih sound _

/-- The update of a node: what its neighbours on the other side share. -/
def update (g : Graph n) (isAuth : Fin n → Bool) (score : Fin n → ℚ) (i : Fin n) : ℚ :=
  if isAuth i then ((g.inNeighbous i).map (share g.inNeighbous g.outNeighbous score)).sum
  else ((g.outNeighbous i).map (share g.outNeighbous g.inNeighbous score)).sum

structure Sweep.Sound (g : Graph n) (score : Fin n → ℚ) (sweep : Sweep n) : Prop where
  known_out : Known (share g.inNeighbous g.outNeighbous score) sweep.localOutScore
  known_in : Known (share g.outNeighbous g.inNeighbous score) sweep.localInScore

theorem sweepNode_eq (isAuth : Fin n → Bool) {sweep : Sweep n} (sound : sweep.Sound g score)
    (i : Fin n) :
    (sweepNode g isAuth score sweep i).newScore =
      Function.update sweep.newScore i (update g isAuth score i) ∧
      (sweepNode g isAuth score sweep i).Sound g score := by
  unfold sweepNode update
  split
  · rw [neighbourScore_eq]
    obtain ⟨total, known⟩ := accumulateMemo_eq sound.known_out 0 (g.inNeighbous i)
    rw [zero_add] at total
    exact ⟨congrArg (Function.update sweep.newScore i) total, known, sound.known_in⟩
  · rw [neighbourScore_eq]
    obtain ⟨total, known⟩ := accumulateMemo_eq sound.known_in 0 (g.outNeighbous i)
    rw [zero_add] at total
    exact ⟨congrArg (Function.update sweep.newScore i) total, sound.known_out, known⟩

/-- A pass over some nodes updates these. -/
theorem sweep_eq (isAuth : Fin n → Bool) {sweep : Sweep n} (sound : sweep.Sound g score)
    (l : List (Fin n)) (i : Fin n) : (l.foldl (sweepNode g isAuth score) sweep).newScore i =
      if i ∈ l then update g isAuth score i else sweep.newScore i := by
  induction l generalizing sweep with
  | nil => simp
  | cons j l ih =>
    obtain ⟨written, sound'⟩ := sweepNode_eq isAuth sound j
    rw [List.foldl_cons, ih sound', written]
    by_cases later : i ∈ l
    · rw [if_pos later, if_pos (List.mem_cons_of_mem j later)]
    · by_cases here : i = j
      · subst here
        rw [if_neg later, Function.update_self, if_pos List.mem_cons_self]
      · rw [if_neg later, Function.update_of_ne here, if_neg (by simp [here, later])]

theorem salsaIteration_newScore (g : Graph n) (isAuth : Fin n → Bool) (s : Scores n) (i : Fin n) :
    (salsaIteration g isAuth s).newScore i = update g isAuth s.score i := by
  have sound : (⟨s.newScore, fun _ => -1, fun _ => -1⟩ : Sweep n).Sound g s.score :=
    ⟨fun _ => .inl rfl, fun _ => .inl rfl⟩
  have written := sweep_eq isAuth sound (List.finRange n) i
  rwa [if_pos (List.mem_finRange i)] at written

theorem salsaIteration_score (g : Graph n) (isAuth : Fin n → Bool) (s : Scores n) (i : Fin n) :
    (salsaIteration g isAuth s).score i = (salsaIteration g isAuth s).newScore i / max
      (∑ j, s.score j) 1 := by
  have total : (List.finRange n).foldl (fun sum j => sum + s.score j) 0 = ∑ j, s.score j := by
    rw [foldl_add, zero_add, Fin.sum_univ_def]
  rw [← total]
  rfl

theorem update_nonneg (nonneg : ∀ i, 0 ≤ score i) (i : Fin n) : 0 ≤ update g isAuth score i := by
  have shares : ∀ (inward outward : Fin n → List (Fin n)) (l : List (Fin n)),
      0 ≤ (l.map (share inward outward score)).sum := by
    intro inward outward l
    refine List.sum_nonneg fun x member => ?_
    obtain ⟨h, _, rfl⟩ := List.mem_map.mp member
    exact share_nonneg nonneg h
  unfold update
  split
  · exact shares _ _ _
  · exact shares _ _ _

/-- The authorities together get what the authorities had that have an inbound link left. -/
theorem sum_update_auth (consistent : g.Consistent)
    (sides : ∀ i, ∀ h ∈ g.inNeighbous i, ¬(isAuth h = true ↔ isAuth i = true)) (score : Fin n → ℚ) :
    ∑ i with isAuth i = true, update g isAuth score i =
      ∑ i with isAuth i = true ∧ g.inNeighbous i ≠ [], score i := by
  rw [← Transposed.sum_share consistent sides score]
  refine Finset.sum_congr rfl fun i member => ?_
  rw [update, if_pos (Finset.mem_filter.mp member).2]

/-- The hubs together get what the hubs had that have an outbound link left. -/
theorem sum_update_hub (consistent : g.Consistent)
    (sides : ∀ i, ∀ h ∈ g.inNeighbous i, ¬(isAuth h = true ↔ isAuth i = true)) (score : Fin n → ℚ) :
    ∑ i with ¬isAuth i = true, update g isAuth score i =
      ∑ i with ¬isAuth i = true ∧ g.outNeighbous i ≠ [], score i := by
  have turned : ∀ i, ∀ h ∈ g.outNeighbous i, ¬(¬isAuth h = true ↔ ¬isAuth i = true) := by
    intro i h member same
    exact sides h i (Transposed.mem_iff consistent |>.mpr member) (not_iff_not.mp same).symm
  rw [← Transposed.sum_share (Transposed.symm consistent) turned score]
  refine Finset.sum_congr rfl fun i member => ?_
  rw [update, if_neg (Finset.mem_filter.mp member).2]

/-- Nothing is made up: the update has no more weight than the scores. -/
theorem sum_update_le (consistent : g.Consistent)
    (sides : ∀ i, ∀ h ∈ g.inNeighbous i, ¬(isAuth h = true ↔ isAuth i = true))
    (nonneg : ∀ i, 0 ≤ score i) :
    ∑ i, update g isAuth score i ≤ ∑ i, score i := by
  rw [← Finset.sum_filter_add_sum_filter_not Finset.univ (isAuth · = true) (update g isAuth score),
    ← Finset.sum_filter_add_sum_filter_not Finset.univ (isAuth · = true) score,
    sum_update_auth consistent sides, sum_update_hub consistent sides]
  refine add_le_add ?_ ?_
  · rw [← Finset.filter_filter]
    exact Finset.sum_le_sum_of_subset_of_nonneg (Finset.filter_subset _ _) fun i _ _ => nonneg i
  · rw [← Finset.filter_filter]
    exact Finset.sum_le_sum_of_subset_of_nonneg (Finset.filter_subset _ _) fun i _ _ => nonneg i

end Iteration

/-! ### Runs -/

section Runs

variable {n : Nat} {g : Graph n}

/-- The scores after a number of iterations. -/
def salsaAfter (g : Graph n) : Nat → Scores n
  | 0 => salsaStart g
  | k + 1 => salsaIteration g.bipartite g.isAuth (salsaAfter g k)

theorem salsaLoop_after (g : Graph n) (k fuel : Nat) :
    ∃ more ≤ fuel, salsaLoop g.bipartite g.isAuth fuel (salsaAfter g k) =
      salsaAfter g (k + more) := by
  induction fuel generalizing k with
  | zero => exact ⟨0, Nat.le_refl 0, rfl⟩
  | succ fuel ih =>
    rw [salsaLoop]
    split
    · obtain ⟨more, bounded, same⟩ := ih (k + 1)
      refine ⟨more + 1, Nat.succ_le_succ bounded, ?_⟩
      rw [← salsaAfter, same]
      congr 1
      omega
    · exact ⟨0, Nat.zero_le _, rfl⟩

/-- The first iteration is always made, so the ranking is the scores after one to 300 of them. -/
theorem salsaRank_after (g : Graph n) : ∃ k < 300, salsaRank g = (salsaAfter g (k + 1)).score := by
  have first : salsaLoop g.bipartite g.isAuth 300 (salsaStart g) =
      salsaLoop g.bipartite g.isAuth 299 (salsaAfter g 1) := by
    rw [salsaLoop, if_pos (by norm_num [salsaStart])]
    rfl
  obtain ⟨k, bounded, same⟩ := salsaLoop_after g 1 299
  refine ⟨k, by omega, ?_⟩
  rw [salsaRank, first, same, Nat.add_comm]

theorem salsaAfter_nonneg (g : Graph n) (k : Nat) (i : Fin n) :
    0 ≤ (salsaAfter g k).score i ∧ 0 ≤ (salsaAfter g k).newScore i := by
  induction k generalizing i with
  | zero =>
    refine ⟨?_, le_refl 0⟩
    exact div_nonneg zero_le_one (Nat.cast_nonneg _)
  | succ k ih =>
    have updated : 0 ≤ (salsaAfter g (k + 1)).newScore i := by
      rw [salsaAfter, salsaIteration_newScore]
      exact update_nonneg (fun j => (ih j).1) i
    refine ⟨?_, updated⟩
    rw [salsaAfter, salsaIteration_score]
    exact div_nonneg updated (zero_le_one.trans (le_max_right _ _))

/-- Over all iterations no score is negative, the update of each side has the weight of those of
its nodes that still have a link, and the scores sum up to one at most. -/
theorem salsaRank_conserves_mass (g : Graph n) (consistent : g.Consistent) :
    (∀ k, let s := salsaAfter g k
      let next := salsaAfter g (k + 1)
      (∀ i, 0 ≤ s.score i ∧ 0 ≤ s.newScore i) ∧
        ∑ i with g.isAuth i = true, next.newScore i =
          ∑ i with g.isAuth i = true ∧ g.bipartite.inNeighbous i ≠ [], s.score i ∧
        ∑ i with ¬g.isAuth i = true, next.newScore i =
          ∑ i with ¬g.isAuth i = true ∧ g.bipartite.outNeighbous i ≠ [], s.score i ∧
        ∑ i, next.score i ≤ 1) ∧
      ∃ k < 300, salsaRank g = (salsaAfter g (k + 1)).score := by
  refine ⟨fun k => ?_, salsaRank_after g⟩
  intro s next
  have sides := Graph.bipartite_sides (g := g)
  have consistent' := Graph.bipartite_consistent consistent
  have updated : next.newScore = update g.bipartite g.isAuth s.score :=
    funext (salsaIteration_newScore g.bipartite g.isAuth s)
  refine ⟨salsaAfter_nonneg g k, ?_, ?_, ?_⟩
  · rw [updated, sum_update_auth consistent' sides]
  · rw [updated, sum_update_hub consistent' sides]
  · -- the new scores are normalised by the weight of the old ones, which is no less
    have scores : ∑ i, next.score i = (∑ i, next.newScore i) / max (∑ j, s.score j) 1 := by
      rw [Finset.sum_div]
      exact Finset.sum_congr rfl fun i _ => salsaIteration_score g.bipartite g.isAuth s i
    rw [scores, updated]
    refine div_le_one_of_le₀ ?_ (zero_le_one.trans (le_max_right _ _))
    exact (sum_update_le consistent' sides fun i => (salsaAfter_nonneg g k i).1).trans
      (le_max_left _ _)

theorem salsaRank_conserves_mass_link :
    let g : Graph 2 := ⟨![[], [0]], ![[1], []]⟩
    (∀ k, let s := salsaAfter g k
      let next := salsaAfter g (k + 1)
      (∀ i, 0 ≤ s.score i ∧ 0 ≤ s.newScore i) ∧
        ∑ i with g.isAuth i = true, next.newScore i =
          ∑ i with g.isAuth i = true ∧ g.bipartite.inNeighbous i ≠ [], s.score i ∧
        ∑ i with ¬g.isAuth i = true, next.newScore i =
          ∑ i with ¬g.isAuth i = true ∧ g.bipartite.outNeighbous i ≠ [], s.score i ∧
        ∑ i, next.score i ≤ 1) ∧
      ∃ k < 300, salsaRank g = (salsaAfter g (k + 1)).score := by
  intro g
  have consistent : ∀ i j, (g.inNeighbous i).count j = (g.outNeighbous j).count i := by decide
  exact salsaRank_conserves_mass g consistent

end Runs

end Tlgs
