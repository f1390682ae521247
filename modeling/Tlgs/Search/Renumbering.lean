import Tlgs.Search.Salsa

/-!
# The cached sums of the ranking

In every iteration the cache of partial sums makes no difference: a new score is the sum over two
steps in the bipartite graph, written down directly. So the order in which nodes and neighbours are
visited does not matter, and other numbers for the nodes give the same scores under these numbers.
-/
namespace Tlgs

open Neighbours

variable {n : Nat}

/-! ### The sum over two steps -/

/-- The sum over the neighbours of the average over their neighbours, each of which divides its
score among its links. -/
def twoStep (links back : Fin n → List (Fin n)) (score : Fin n → ℚ) (i : Fin n) : ℚ :=
  ((links i).map fun h =>
    ((back h).map fun a => score a / ((links a).length : ℚ)).sum / ((back h).length : ℚ)).sum

def directScore (g : Graph n) (isAuth : Fin n → Bool) (score : Fin n → ℚ) (i : Fin n) : ℚ :=
  if isAuth i then twoStep g.inNeighbous g.outNeighbous score i
  else twoStep g.outNeighbous g.inNeighbous score i

private theorem degree_of_mem {l : List (Fin n)} {i : Fin n} (member : i ∈ l) :
    degree l = l.length :=
  Nat.max_eq_left (List.length_pos_of_mem member)

/-- On transposed lists no division is by an empty list. -/
private theorem sum_share_eq {links back : Fin n → List (Fin n)}
    (transposed : Transposed links back) (score : Fin n → ℚ) (i : Fin n) :
    ((links i).map (share links back score)).sum = twoStep links back score i := by
  refine congrArg List.sum (List.map_congr_left fun h member => ?_)
  -- `i` itself is behind `h`, and `h` behind each `a`, so `degree` is the length
  have some_link : i ∈ back h := transposed.mem_iff.mp member
  rw [share, degree_of_mem some_link]
  refine congrArg (· / ((back h).length : ℚ))
    (congrArg List.sum (List.map_congr_left fun a behind => ?_))
  rw [degree_of_mem (transposed.mem_iff.mpr behind)]

theorem update_eq_direct {g : Graph n} (consistent : g.Consistent) (isAuth : Fin n → Bool)
    (score : Fin n → ℚ) (i : Fin n) : update g isAuth score i = directScore g isAuth score i := by
  simp only [update, directScore]
  split
  · exact sum_share_eq consistent score i
  · exact sum_share_eq (Transposed.symm consistent) score i

/-- The scores behind a node are no negative number, so none is the sentinel. -/
theorem neighbourScore_ne_sentinel {links back : Fin n → List (Fin n)} {score : Fin n → ℚ}
    (nonneg : ∀ i, 0 ≤ score i) (h : Fin n) : neighbourScore links back score h ≠ -1 := by
  rw [neighbourScore_eq]
  have value : 0 ≤ share back links score h := share_nonneg nonneg h
  intro sentinel
  rw [sentinel] at value
  norm_num at value

/-- A pass in any order that visits every node. -/
theorem sweep_any_order (g : Graph n) (isAuth : Fin n → Bool) (s : Scores n) {order : List (Fin n)}
    (visited : ∀ i, i ∈ order) (i : Fin n) :
    (order.foldl (sweepNode g isAuth s.score) ⟨s.newScore, fun _ => -1, fun _ => -1⟩).newScore i =
      update g isAuth s.score i := by
  have sound : (⟨s.newScore, fun _ => -1, fun _ => -1⟩ : Sweep n).Sound g s.score :=
    ⟨fun _ => .inl rfl, fun _ => .inl rfl⟩
  rw [sweep_eq isAuth sound order i, if_pos (visited i)]

/-! ### Other numbers for the nodes -/

/-- The same network with other numbers, and its lists in any order. -/
structure Graph.Renumbered (number : Equiv.Perm (Fin n)) (g g' : Graph n) : Prop where
  inward : Renumbers number g.inNeighbous g'.inNeighbous
  outward : Renumbers number g.outNeighbous g'.outNeighbous

structure Scores.Renumbered (number : Equiv.Perm (Fin n)) (s s' : Scores n) : Prop where
  score : ∀ i, s'.score (number i) = s.score i
  newScore : ∀ i, s'.newScore (number i) = s.newScore i
  scoreDelta : s'.scoreDelta = s.scoreDelta

section Renumbered

variable {number : Equiv.Perm (Fin n)} {g g' : Graph n}

theorem Graph.Renumbered.isAuth_eq (renumbered : g.Renumbered number g') (i : Fin n) :
    g'.isAuth (number i) = g.isAuth i := by
  rw [Graph.isAuth, Graph.isAuth, renumbered.inward.length_eq, renumbered.outward.length_eq]

private theorem countP_renumbered {p p' : Fin n → Bool} (same : ∀ i, p' (number i) = p i) :
    (List.finRange n).countP p' = (List.finRange n).countP p := by
  rw [← (Equiv.Perm.map_finRange_perm number).countP_eq p', List.countP_map]
  exact congrArg (List.countP · _) (funext same)

private theorem foldl_renumbered {f f' : Fin n → ℚ} (same : ∀ i, f' (number i) = f i) :
    (List.finRange n).foldl (fun sum i => sum + f' i) 0 =
      (List.finRange n).foldl (fun sum i => sum + f i) 0 := by
  rw [foldl_add, foldl_add, ← Fin.sum_univ_def, ← Fin.sum_univ_def, ← Equiv.sum_comp number f']
  simp only [same]

theorem Graph.Renumbered.bipartite (renumbered : g.Renumbered number g') :
    g.bipartite.Renumbered number g'.bipartite := by
  have sides : ∀ i j, (!(g'.isAuth (number j) == g'.isAuth (number i))) =
      !(g.isAuth j == g.isAuth i) := by
    intro i j
    rw [renumbered.isAuth_eq, renumbered.isAuth_eq]
  -- the loops may leave the links in another order, which the relation allows
  constructor
  · exact (renumbered.inward.filter sides).of_perm (fun i => Graph.removeLinks_perm _ _)
      fun i => Graph.removeLinks_perm _ _
  · exact (renumbered.outward.filter sides).of_perm (fun i => Graph.removeLinks_perm _ _)
      fun i => Graph.removeLinks_perm _ _

theorem update_renumbered (renumbered : g.Renumbered number g') {isAuth isAuth' : Fin n → Bool}
    {score score' : Fin n → ℚ} (sides : ∀ i, isAuth' (number i) = isAuth i)
    (scores : ∀ i, score' (number i) = score i) (i : Fin n) :
    update g' isAuth' score' (number i) = update g isAuth score i := by
  simp only [update, sides]
  split
  · exact renumbered.inward.sum_map (renumbered.inward.share renumbered.outward scores) i
  · exact renumbered.outward.sum_map (renumbered.outward.share renumbered.inward scores) i

theorem salsaIteration_renumbered (renumbered : g.Renumbered number g')
    {isAuth isAuth' : Fin n → Bool} {s s' : Scores n} (sides : ∀ i, isAuth' (number i) = isAuth i)
    (scores : s.Renumbered number s') :
    (salsaIteration g isAuth s).Renumbered number (salsaIteration g' isAuth' s') := by
  have updated : ∀ i, (salsaIteration g' isAuth' s').newScore (number i) =
      (salsaIteration g isAuth s).newScore i := by
    intro i
    rw [salsaIteration_newScore, salsaIteration_newScore]
    exact update_renumbered renumbered sides scores.score i
  -- the factor of the normalisation is a sum over all nodes
  have total : ∑ j, s'.score j = ∑ j, s.score j := by
    rw [← Equiv.sum_comp number s'.score]
    simp only [scores.score]
  have score : ∀ i, (salsaIteration g' isAuth' s').score (number i) =
      (salsaIteration g isAuth s).score i := by
    intro i
    rw [salsaIteration_score, salsaIteration_score, updated, total]
  refine ⟨score, updated, ?_⟩
  exact foldl_renumbered fun i => congrArg₂ (fun x y : ℚ => |x - y|) (score i) (scores.score i)

theorem salsaLoop_renumbered (renumbered : g.Renumbered number g') {isAuth isAuth' : Fin n → Bool}
    {s s' : Scores n} (sides : ∀ i, isAuth' (number i) = isAuth i)
    (scores : s.Renumbered number s') (fuel : Nat) :
    (salsaLoop g isAuth fuel s).Renumbered number (salsaLoop g' isAuth' fuel s') := by
  induction fuel generalizing s s' with
  | zero => exact scores
  | succ fuel ih =>
    -- both loops see the same change, so they stop in the same round
    simp only [salsaLoop, scores.scoreDelta]
    split
    · exact ih (salsaIteration_renumbered renumbered sides scores)
    · exact scores

theorem salsaStart_renumbered (renumbered : g.Renumbered number g') :
    (salsaStart g).Renumbered number (salsaStart g') := by
  have auths : g'.numAuths = g.numAuths := countP_renumbered renumbered.isAuth_eq
  have hubs : g'.numHubs = g.numHubs :=
    countP_renumbered fun i => congrArg (!·) (renumbered.isAuth_eq i)
  refine ⟨fun i => ?_, fun _ => rfl, rfl⟩
  simp only [salsaStart, renumbered.isAuth_eq, auths, hubs]

theorem salsaAfter_renumbered (renumbered : g.Renumbered number g') (k : Nat) :
    (salsaAfter g k).Renumbered number (salsaAfter g' k) := by
  induction k with
  | zero => exact salsaStart_renumbered renumbered
  | succ k ih => exact salsaIteration_renumbered renumbered.bipartite renumbered.isAuth_eq ih

end Renumbered

/-- In every iteration the new scores are the sums over two steps in the bipartite graph, in
whatever order the nodes are visited, and no value that is cached is the sentinel. Other numbers for
the nodes and other orders of the lists give the same scores under these numbers, in every iteration
and as the result. -/
theorem salsaRank_direct (g : Graph n) (consistent : g.Consistent) :
    (∀ k, let s := salsaAfter g k
      (∀ i, (salsaAfter g (k + 1)).newScore i = directScore g.bipartite g.isAuth s.score i) ∧
        (∀ order : List (Fin n), (∀ i, i ∈ order) → ∀ i,
          (order.foldl (sweepNode g.bipartite g.isAuth s.score)
            ⟨s.newScore, fun _ => -1, fun _ => -1⟩).newScore i =
              directScore g.bipartite g.isAuth s.score i) ∧
        ∀ h, neighbourScore g.bipartite.outNeighbous g.bipartite.inNeighbous s.score h ≠ -1 ∧
          neighbourScore g.bipartite.inNeighbous g.bipartite.outNeighbous s.score h ≠ -1) ∧
      ∀ (number : Equiv.Perm (Fin n)) (g' : Graph n), g.Renumbered number g' →
        (∀ k, (salsaAfter g k).Renumbered number (salsaAfter g' k)) ∧
          ∀ i, salsaRank g' (number i) = salsaRank g i := by
  have consistent' := Graph.bipartite_consistent consistent
  constructor
  · -- within an iteration
    intro k s
    have direct := update_eq_direct consistent' g.isAuth s.score
    refine ⟨fun i => ?_, fun order visited i => ?_, fun h => ⟨?_, ?_⟩⟩
    · rw [← direct, salsaAfter, salsaIteration_newScore]
    · rw [← direct, sweep_any_order _ _ s visited]
    · exact neighbourScore_ne_sentinel (fun i => (salsaAfter_nonneg g k i).1) h
    · exact neighbourScore_ne_sentinel (fun i => (salsaAfter_nonneg g k i).1) h
  · -- from one iteration to the next, up to the last
    intro number g' renumbered
    refine ⟨salsaAfter_renumbered renumbered, ?_⟩
    exact (salsaLoop_renumbered renumbered.bipartite renumbered.isAuth_eq
      (salsaStart_renumbered renumbered) 300).score

theorem salsaRank_direct_link :
    let g : Graph 2 := ⟨![[], [0]], ![[1], []]⟩
    (∀ k, let s := salsaAfter g k
      (∀ i, (salsaAfter g (k + 1)).newScore i = directScore g.bipartite g.isAuth s.score i) ∧
        (∀ order : List (Fin 2), (∀ i, i ∈ order) → ∀ i,
          (order.foldl (sweepNode g.bipartite g.isAuth s.score)
            ⟨s.newScore, fun _ => -1, fun _ => -1⟩).newScore i =
              directScore g.bipartite g.isAuth s.score i) ∧
        ∀ h, neighbourScore g.bipartite.outNeighbous g.bipartite.inNeighbous s.score h ≠ -1 ∧
          neighbourScore g.bipartite.inNeighbous g.bipartite.outNeighbous s.score h ≠ -1) ∧
      ∀ (number : Equiv.Perm (Fin 2)) (g' : Graph 2), g.Renumbered number g' →
        (∀ k, (salsaAfter g k).Renumbered number (salsaAfter g' k)) ∧
          ∀ i, salsaRank g' (number i) = salsaRank g i := by
  intro g
  have consistent : ∀ i j, (g.inNeighbous i).count j = (g.outNeighbous j).count i := by decide
  exact salsaRank_direct g consistent

end Tlgs
