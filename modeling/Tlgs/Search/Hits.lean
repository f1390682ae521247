import Tlgs.Search.Renumbering

/-!
# `hitsRank`

The other ranking of `search.cpp`, with `float` and `double` read as exact rationals. A node that
gets nothing over its links keeps the score it had, and what falls below the least step of a
`float` at one becomes zero.
-/
namespace Tlgs

open Neighbours

variable {n : Nat}

structure HitsScores (n : Nat) where
  authScore : Fin n → ℚ
  hubScore : Fin n → ℚ
  newAuthScore : Fin n → ℚ
  newHubScore : Fin n → ℚ
  scoreDelta : ℚ

/-! ### One iteration -/

def calcScore (neighbours : List (Fin n)) (score : Fin n → ℚ) : ℚ :=
  neighbours.foldl (fun sum idx => sum + score idx) 0

/-- The body of the first loop over the nodes. -/
def hitsGather (g : Graph n) (s : HitsScores n) (i : Fin n) : HitsScores n :=
  let calcAuthScore := calcScore (g.inNeighbous i) s.hubScore
  let calcHubScore := calcScore (g.outNeighbous i) s.authScore
  { s with
    newAuthScore := Function.update s.newAuthScore i
      (if calcAuthScore ≠ 0 then calcAuthScore else s.authScore i)
    newHubScore := Function.update s.newHubScore i
      (if calcHubScore ≠ 0 then calcHubScore else s.hubScore i) }

/-- `std::numeric_limits<float>::epsilon()`. -/
def floatEpsilon : ℚ := 1 / 2 ^ 23

/-- "avoid denormals". -/
def avoidDenormal (score : ℚ) : ℚ := if score < floatEpsilon then 0 else score

/-- The body of the second loop. -/
def hitsSettle (authSum hubSum : ℚ) (s : HitsScores n) (i : Fin n) : HitsScores n :=
  let auth := s.newAuthScore i / authSum
  let hub := s.newHubScore i / hubSum
  { s with
    scoreDelta := s.scoreDelta + |s.authScore i - auth| + |s.hubScore i - hub|
    authScore := Function.update s.authScore i (avoidDenormal auth)
    hubScore := Function.update s.hubScore i (avoidDenormal hub) }

/-- A sum of scores that the scores are divided by. -/
def hitsSum (score : Fin n → ℚ) : ℚ :=
  max ((List.finRange n).foldl (fun sum i => sum + score i) 0) 1

def hitsIteration (g : Graph n) (s : HitsScores n) : HitsScores n :=
  let s := (List.finRange n).foldl (hitsGather g) s
  (List.finRange n).foldl (hitsSettle (hitsSum s.newAuthScore) (hitsSum s.newHubScore))
    { s with scoreDelta := 0 }

/-! ### The iterations -/

def hitsLoop (g : Graph n) : Nat → HitsScores n → HitsScores n
  | 0, s => s
  | fuel + 1, s => if s.scoreDelta > 1 / 200 then hitsLoop g fuel (hitsIteration g s) else s

def hitsStart (n : Nat) : HitsScores n where
  authScore _ := 1 / n
  hubScore _ := 1 / n
  newAuthScore _ := 0
  newHubScore _ := 0
  scoreDelta := 9

/-- The scores of the pages that are linked to, exact where the source rounds. -/
def hitsRank (g : Graph n) : Fin n → ℚ := (hitsLoop g 300 (hitsStart n)).authScore

/-! ### What an iteration computes -/

/-- What a node gets over its links, or what it has where that is nothing. -/
def gathered (links : Fin n → List (Fin n)) (from_ own : Fin n → ℚ) (i : Fin n) : ℚ :=
  if ((links i).map from_).sum ≠ 0 then ((links i).map from_).sum else own i

/-- The scores that are gathered, normalised. -/
def settled (links : Fin n → List (Fin n)) (from_ own : Fin n → ℚ) (i : Fin n) : ℚ :=
  gathered links from_ own i / max (∑ j, gathered links from_ own j) 1

theorem calcScore_eq (neighbours : List (Fin n)) (score : Fin n → ℚ) :
    calcScore neighbours score = (neighbours.map score).sum := by
  rw [calcScore, foldl_add, zero_add]

theorem hitsSum_eq (score : Fin n → ℚ) : hitsSum score = max (∑ i, score i) 1 := by
  rw [hitsSum, foldl_add, zero_add, ← Fin.sum_univ_def]

/-- Writing the value of one more entry. -/
private theorem written_next (value old : Fin n → ℚ) (i : Fin n) (order : List (Fin n)) :
    (fun j => if j ∈ order then value j else Function.update old i (value i) j) =
      fun j => if j ∈ i :: order then value j else old j := by
  funext j
  by_cases later : j ∈ order
  · simp [later]
  · by_cases here : j = i
    · subst here
      simp [later]
    · simp [later, here]

/-- A pass in any order gathers from the scores as they were before it. -/
theorem gather_eq (g : Graph n) (s : HitsScores n) (order : List (Fin n)) :
    order.foldl (hitsGather g) s =
      { s with
        newAuthScore := fun i => if i ∈ order then gathered g.inNeighbous s.hubScore s.authScore i
          else s.newAuthScore i
        newHubScore := fun i => if i ∈ order then gathered g.outNeighbous s.authScore s.hubScore i
          else s.newHubScore i } := by
  induction order generalizing s with
  | nil => simp
  | cons i order ih =>
    rw [List.foldl_cons, ih, ← written_next, ← written_next]
    simp only [hitsGather, calcScore_eq, gathered]

/-- A pass that visits each node once compares with the scores as they were before it. -/
theorem settle_eq (authSum hubSum : ℚ) (s : HitsScores n) {order : List (Fin n)}
    (distinct : order.Nodup) :
    order.foldl (hitsSettle authSum hubSum) s =
      { s with
        authScore := fun i => if i ∈ order then avoidDenormal (s.newAuthScore i / authSum)
          else s.authScore i
        hubScore := fun i => if i ∈ order then avoidDenormal (s.newHubScore i / hubSum)
          else s.hubScore i
        scoreDelta := s.scoreDelta + (order.map fun i =>
          |s.authScore i - s.newAuthScore i / authSum| + |s.hubScore i - s.newHubScore i /
            hubSum|).sum } := by
  induction order generalizing s with
  | nil => simp
  | cons i order ih =>
    obtain ⟨once, distinct⟩ := List.nodup_cons.mp distinct
    -- the nodes to come have the scores that they had
    have rest : (order.map fun j =>
        |Function.update s.authScore i (avoidDenormal (s.newAuthScore i / authSum)) j -
          s.newAuthScore j / authSum| +
        |Function.update s.hubScore i (avoidDenormal (s.newHubScore i / hubSum)) j -
          s.newHubScore j / hubSum|) =
        order.map fun j =>
          |s.authScore j - s.newAuthScore j / authSum| + |s.hubScore j -
            s.newHubScore j / hubSum| := by
      refine List.map_congr_left fun j member => ?_
      have apart : j ≠ i := fun same => once (same ▸ member)
      rw [Function.update_of_ne apart, Function.update_of_ne apart]
    rw [List.foldl_cons, ih _ distinct,
      ← written_next (fun i => avoidDenormal (s.newAuthScore i / authSum)),
      ← written_next (fun i => avoidDenormal (s.newHubScore i / hubSum)), List.map_cons,
        List.sum_cons]
    simp only [hitsSettle, rest, add_assoc]

/-- An iteration as a whole. -/
theorem hitsIteration_eq (g : Graph n) (s : HitsScores n) :
    hitsIteration g s =
      { authScore := fun i => avoidDenormal (settled g.inNeighbous s.hubScore s.authScore i)
        hubScore := fun i => avoidDenormal (settled g.outNeighbous s.authScore s.hubScore i)
        newAuthScore := gathered g.inNeighbous s.hubScore s.authScore
        newHubScore := gathered g.outNeighbous s.authScore s.hubScore
        scoreDelta := ∑ i, (|s.authScore i - settled g.inNeighbous s.hubScore s.authScore i| +
          |s.hubScore i - settled g.outNeighbous s.authScore s.hubScore i|) } := by
  simp only [hitsIteration, gather_eq, List.mem_finRange, if_true,
    settle_eq _ _ _ (List.nodup_finRange n), hitsSum_eq, zero_add, ← Fin.sum_univ_def]
  rfl

/-! ### Bounds -/

theorem gathered_nonneg {links : Fin n → List (Fin n)} {from_ own : Fin n → ℚ}
    (some_from : ∀ i, 0 ≤ from_ i) (some_own : ∀ i, 0 ≤ own i) (i : Fin n) :
    0 ≤ gathered links from_ own i := by
  rw [gathered]
  split
  · refine List.sum_nonneg fun x member => ?_
    obtain ⟨j, _, rfl⟩ := List.mem_map.mp member
    exact some_from j
  · exact some_own i

theorem one_le_total (links : Fin n → List (Fin n)) (from_ own : Fin n → ℚ) :
    0 < max (∑ j, gathered links from_ own j) 1 :=
  zero_lt_one.trans_le (le_max_right _ _)

theorem settled_nonneg {links : Fin n → List (Fin n)} {from_ own : Fin n → ℚ}
    (some_from : ∀ i, 0 ≤ from_ i) (some_own : ∀ i, 0 ≤ own i) (i : Fin n) :
    0 ≤ settled links from_ own i :=
  div_nonneg (gathered_nonneg some_from some_own i) (one_le_total links from_ own).le

theorem sum_settled_le (links : Fin n → List (Fin n)) (from_ own : Fin n → ℚ) :
    ∑ i, settled links from_ own i ≤ 1 := by
  simp only [settled, ← Finset.sum_div]
  exact div_le_one_of_le₀ (le_max_left _ _) (one_le_total links from_ own).le

theorem avoidDenormal_le {score : ℚ} (nonneg : 0 ≤ score) : avoidDenormal score ≤ score := by
  rw [avoidDenormal]
  split
  · exact nonneg
  · exact le_refl _

theorem avoidDenormal_cases (score : ℚ) :
    avoidDenormal score = 0 ∨ floatEpsilon ≤ avoidDenormal score := by
  rw [avoidDenormal]
  split
  next low => exact .inl rfl
  next high => exact .inr (not_lt.mp high)

theorem floatEpsilon_pos : 0 < floatEpsilon := by norm_num [floatEpsilon]

theorem avoidDenormal_nonneg (score : ℚ) : 0 ≤ avoidDenormal score := by
  rcases avoidDenormal_cases score with zero | least
  · exact zero.ge
  · exact floatEpsilon_pos.le.trans least

/-- The scores after a number of iterations. -/
def hitsAfter (g : Graph n) : Nat → HitsScores n
  | 0 => hitsStart n
  | k + 1 => hitsIteration g (hitsAfter g k)

structure HitsScores.Bounded (s : HitsScores n) : Prop where
  auth : ∀ i, 0 ≤ s.authScore i
  hub : ∀ i, 0 ≤ s.hubScore i
  authSum : ∑ i, s.authScore i ≤ 1
  hubSum : ∑ i, s.hubScore i ≤ 1

theorem hitsStart_bounded (n : Nat) : (hitsStart n).Bounded := by
  have nonneg : ∀ i : Fin n, (0 : ℚ) ≤ 1 / n := fun _ => div_nonneg zero_le_one (Nat.cast_nonneg _)
  have total : ∑ _i : Fin n, (1 : ℚ) / n ≤ 1 := by
    rw [Finset.sum_const, Finset.card_univ, Fintype.card_fin, nsmul_eq_mul, mul_one_div]
    exact div_self_le_one _
  exact ⟨nonneg, nonneg, total, total⟩

theorem hitsIteration_bounded (g : Graph n) {s : HitsScores n} (bounded : s.Bounded) :
    (hitsIteration g s).Bounded := by
  rw [hitsIteration_eq]
  refine ⟨fun i => avoidDenormal_nonneg _, fun i => avoidDenormal_nonneg _, ?_, ?_⟩
  · refine (Finset.sum_le_sum fun i _ => ?_).trans
      (sum_settled_le g.inNeighbous s.hubScore s.authScore)
    exact avoidDenormal_le (settled_nonneg bounded.hub bounded.auth i)
  · refine (Finset.sum_le_sum fun i _ => ?_).trans
      (sum_settled_le g.outNeighbous s.authScore s.hubScore)
    exact avoidDenormal_le (settled_nonneg bounded.auth bounded.hub i)

theorem hitsAfter_bounded (g : Graph n) (k : Nat) : (hitsAfter g k).Bounded := by
  induction k with
  | zero => exact hitsStart_bounded n
  | succ k ih => exact hitsIteration_bounded g ih

/-- The loop goes on as long as the scores change. -/
theorem hitsLoop_after (g : Graph n) (k fuel : Nat) :
    ∃ more ≤ fuel, hitsLoop g fuel (hitsAfter g k) = hitsAfter g (k + more) ∧
      (more = fuel ∨ (hitsAfter g (k + more)).scoreDelta ≤ 1 / 200) ∧
      ∀ j < more, 1 / 200 < (hitsAfter g (k + j)).scoreDelta := by
  induction fuel generalizing k with
  | zero => exact ⟨0, Nat.le_refl 0, rfl, .inl rfl, nofun⟩
  | succ fuel ih =>
    rw [hitsLoop]
    split
    next changing =>
      obtain ⟨more, bounded, same, ends, before⟩ := ih (k + 1)
      have shift : k + 1 + more = k + (more + 1) := by omega
      refine ⟨more + 1, Nat.succ_le_succ bounded, ?_, ?_, fun j below => ?_⟩
      · rw [← hitsAfter, same, shift]
      · rw [← shift]
        exact ends.imp_left (congrArg (· + 1))
      · -- the first of them is the one that the loop tested
        cases j with
        | zero => exact changing
        | succ j =>
          have later := before j (Nat.lt_of_succ_lt_succ below)
          rwa [Nat.add_assoc, Nat.add_comm 1 j] at later
    next settled => exact ⟨0, Nat.zero_le _, rfl, .inr (not_lt.mp settled), nofun⟩

/-- The first iteration is always made, and then one after the other until the scores change
little. -/
theorem hitsRank_after (g : Graph n) : ∃ k < 300, hitsRank g = (hitsAfter g (k + 1)).authScore ∧
    (k = 299 ∨ (hitsAfter g (k + 1)).scoreDelta ≤ 1 / 200) ∧
    ∀ j < k, 1 / 200 < (hitsAfter g (j + 1)).scoreDelta := by
  obtain ⟨more, bounded, same, ends, before⟩ := hitsLoop_after g 0 300
  simp only [Nat.zero_add] at same ends before
  have first : 1 / 200 < (hitsAfter g 0).scoreDelta := by norm_num [hitsAfter, hitsStart]
  cases more with
  | zero =>
    rcases ends with none | little
    · cases none
    · exact absurd first (not_lt.mpr little)
  | succ k =>
    refine ⟨k, by omega, congrArg HitsScores.authScore same, ends.imp_left Nat.succ.inj,
      fun j below => ?_⟩
    exact before (j + 1) (Nat.succ_lt_succ below)

/-- The first of three nodes links to both others, and the second to the third. -/
def linkedInTurn : Graph 3 := ⟨![[], [0], [0, 1]], ![[1, 2], [2], []]⟩

example : (List.finRange 3).map (hitsRank linkedInTurn) = [1 / 611, 233 / 611, 29 / 47] := by
  decide +kernel

/-! ### Other numbers, and the links turned round -/

/-- The graph with its links turned round. -/
def Graph.reverse (g : Graph n) : Graph n := ⟨g.outNeighbous, g.inNeighbous⟩

/-- Hubs are the authorities of the links turned round. -/
def HitsScores.swap (s : HitsScores n) : HitsScores n :=
  ⟨s.hubScore, s.authScore, s.newHubScore, s.newAuthScore, s.scoreDelta⟩

structure HitsScores.Renumbered (number : Equiv.Perm (Fin n)) (s s' : HitsScores n) : Prop where
  authScore : ∀ i, s'.authScore (number i) = s.authScore i
  hubScore : ∀ i, s'.hubScore (number i) = s.hubScore i
  scoreDelta : s'.scoreDelta = s.scoreDelta

theorem hitsIteration_reverse (g : Graph n) (s : HitsScores n) :
    hitsIteration g.reverse s.swap = (hitsIteration g s).swap := by
  rw [hitsIteration_eq, hitsIteration_eq]
  simp only [HitsScores.swap, Graph.reverse, add_comm]

theorem hitsAfter_reverse (g : Graph n) (k : Nat) :
    hitsAfter g.reverse k = (hitsAfter g k).swap := by
  induction k with
  | zero => rfl
  | succ k ih => rw [hitsAfter, ih, hitsIteration_reverse, hitsAfter]

theorem hitsLoop_reverse (g : Graph n) (fuel : Nat) (s : HitsScores n) :
    hitsLoop g.reverse fuel s.swap = (hitsLoop g fuel s).swap := by
  induction fuel generalizing s with
  | zero => rfl
  | succ fuel ih =>
    -- both loops see the same change
    have delta : s.swap.scoreDelta = s.scoreDelta := rfl
    rw [hitsLoop, hitsLoop, delta, hitsIteration_reverse]
    split
    · exact ih _
    · rfl

section Renumbered

variable {number : Equiv.Perm (Fin n)} {links links' : Fin n → List (Fin n)}
  {from_ own from_' own' : Fin n → ℚ}

theorem gathered_renumbered (renumbers : Renumbers number links links')
    (same_from : ∀ i, from_' (number i) = from_ i) (same_own : ∀ i, own' (number i) = own i)
    (i : Fin n) :
    gathered links' from_' own' (number i) = gathered links from_ own i := by
  rw [gathered, gathered, renumbers.sum_map same_from, same_own]

theorem settled_renumbered (renumbers : Renumbers number links links')
    (same_from : ∀ i, from_' (number i) = from_ i) (same_own : ∀ i, own' (number i) = own i)
    (i : Fin n) :
    settled links' from_' own' (number i) = settled links from_ own i := by
  have gathers := gathered_renumbered renumbers same_from same_own
  have total : ∑ j, gathered links' from_' own' j = ∑ j, gathered links from_ own j := by
    rw [← Equiv.sum_comp number]
    exact Finset.sum_congr rfl fun j _ => gathers j
  rw [settled, settled, gathers, total]

theorem hitsIteration_renumbered {g g' : Graph n} (renumbered : g.Renumbered number g')
    {s s' : HitsScores n} (scores : s.Renumbered number s') :
    (hitsIteration g s).Renumbered number (hitsIteration g' s') := by
  have auth := settled_renumbered renumbered.inward scores.hubScore scores.authScore
  have hub := settled_renumbered renumbered.outward scores.authScore scores.hubScore
  rw [hitsIteration_eq, hitsIteration_eq]
  refine ⟨fun i => congrArg avoidDenormal (auth i), fun i => congrArg avoidDenormal (hub i), ?_⟩
  dsimp only
  rw [← Equiv.sum_comp number]
  refine Finset.sum_congr rfl fun i _ => ?_
  rw [auth, hub, scores.authScore, scores.hubScore]

theorem hitsAfter_renumbered {g g' : Graph n} (renumbered : g.Renumbered number g') (k : Nat) :
    (hitsAfter g k).Renumbered number (hitsAfter g' k) := by
  induction k with
  | zero => exact ⟨fun _ => rfl, fun _ => rfl, rfl⟩
  | succ k ih => exact hitsIteration_renumbered renumbered ih

theorem hitsLoop_renumbered {g g' : Graph n} (renumbered : g.Renumbered number g') (fuel : Nat)
    {s s' : HitsScores n} (scores : s.Renumbered number s') :
    (hitsLoop g fuel s).Renumbered number (hitsLoop g' fuel s') := by
  induction fuel generalizing s s' with
  | zero => exact scores
  | succ fuel ih =>
    simp only [hitsLoop, scores.scoreDelta]
    split
    · exact ih (hitsIteration_renumbered renumbered scores)
    · exact scores

end Renumbered

/-- A pass in any orders that visit each node once. -/
theorem hitsIteration_any_order (g : Graph n) (s : HitsScores n) {order order' : List (Fin n)}
    (gathers : order.Perm (List.finRange n)) (settles : order'.Perm (List.finRange n)) :
    let t := order.foldl (hitsGather g) s
    order'.foldl (hitsSettle (hitsSum t.newAuthScore) (hitsSum t.newHubScore))
      { t with scoreDelta := 0 } =
      hitsIteration g s := by
  have visited : ∀ i, i ∈ order := fun i => gathers.mem_iff.mpr (List.mem_finRange i)
  have visited' : ∀ i, i ∈ order' := fun i => settles.mem_iff.mpr (List.mem_finRange i)
  have distinct : order'.Nodup := settles.nodup_iff.mpr (List.nodup_finRange n)
  intro t
  have total := (settles.map fun i =>
    |s.authScore i - t.newAuthScore i / hitsSum t.newAuthScore| +
      |s.hubScore i - t.newHubScore i / hitsSum t.newHubScore|).sum_eq
  have gathered_all : t = _ := gather_eq g s order
  simp only [visited, if_true] at gathered_all
  rw [settle_eq _ _ _ distinct, hitsIteration_eq]
  simp only [gathered_all, visited', if_true, hitsSum_eq, zero_add] at total ⊢
  rw [total, ← Fin.sum_univ_def]
  rfl

/-- The order in which the nodes are visited makes no difference, nor do the numbers they have and
the orders of their lists; and turning the links round exchanges authorities and hubs. So it is in
every iteration and in the result. -/
theorem hitsRank_symmetric (g : Graph n) :
    (∀ s : HitsScores n, ∀ order order' : List (Fin n), order.Perm (List.finRange n) →
      order'.Perm (List.finRange n) →
        let t := order.foldl (hitsGather g) s
        order'.foldl (hitsSettle (hitsSum t.newAuthScore) (hitsSum t.newHubScore))
          { t with scoreDelta := 0 } =
          hitsIteration g s) ∧
      (∀ k, hitsAfter g.reverse k = (hitsAfter g k).swap) ∧
      hitsRank g.reverse = (hitsLoop g 300 (hitsStart n)).hubScore ∧
      ∀ (number : Equiv.Perm (Fin n)) (g' : Graph n), g.Renumbered number g' →
        (∀ k, (hitsAfter g k).Renumbered number (hitsAfter g' k)) ∧
          ∀ i, hitsRank g' (number i) = hitsRank g i := by
  refine ⟨fun s order order' => hitsIteration_any_order g s, hitsAfter_reverse g, ?_, ?_⟩
  · exact congrArg HitsScores.authScore (hitsLoop_reverse g 300 (hitsStart n))
  · intro number g' renumbered
    refine ⟨hitsAfter_renumbered renumbered, ?_⟩
    exact (hitsLoop_renumbered renumbered 300 ⟨fun _ => rfl, fun _ => rfl, rfl⟩).authScore

end Tlgs
