import Tlgs.Search.Salsa

/-!
# Turning the network into a bipartite graph

The loops of `salsaRank` over the vectors themselves: every list of neighbours is cut down in place
to the nodes of the other side. The sides are computed beforehand, from the lists as they came.
-/
namespace Tlgs

open Neighbours SwapRemove

/-- `std::vector<std::vector<size_t>>`. -/
abbrev Vectors := List (Vec Nat)

/-- The neighbours of a node; none if there is no such node. -/
def Vectors.links (v : Vectors) (i : Nat) : List Nat := (v[i]?.map Vec.items).getD []

/-! ### The loops -/

/-- The hubs and authorities. As in the loops below, `none` is an access out of bounds. -/
def findAuths (inNeighbous outNeighbous : Vectors) : Option (List Bool) :=
  (List.range inNeighbous.length).mapM fun i =>
    inNeighbous[i]?.bind fun inLinks => outNeighbous[i]?.map fun outLinks =>
      decide (inLinks.size > outLinks.size)

/-- `is_auth[idx] == is_auth[i]`. -/
def sameSide (isAuth : List Bool) (i idx : Nat) : Option Bool :=
  isAuth[idx]?.bind fun side => isAuth[i]?.map fun own => side == own

def pruneNode (isAuth : List Bool) (i : Nat) (neighbous : Vectors) : Option Vectors :=
  neighbous[i]?.bind fun links => (filterInPlace (sameSide isAuth i) links).map fun left =>
    neighbous.set i left

def pruneFrom (isAuth : List Bool) : List Nat → Vectors → Vectors → Option (Vectors × Vectors)
  | [], inNeighbous, outNeighbous => some (inNeighbous, outNeighbous)
  | i :: rest, inNeighbous, outNeighbous =>
    (pruneNode isAuth i inNeighbous).bind fun inNeighbous =>
      (pruneNode isAuth i outNeighbous).bind fun outNeighbous =>
        pruneFrom isAuth rest inNeighbous outNeighbous

def prune (inNeighbous outNeighbous : Vectors) : Option (Vectors × Vectors) :=
  (findAuths inNeighbous outNeighbous).bind fun isAuth =>
    pruneFrom isAuth (List.range inNeighbous.length) inNeighbous outNeighbous

/-! ### The sides -/

/-- A node with more inbound links than outbound links. -/
def authority (inNeighbous outNeighbous : Vectors) (i : Nat) : Bool :=
  decide ((inNeighbous.links i).length > (outNeighbous.links i).length)

/-- What the loop leaves of the neighbours of a node. -/
def acrossLeft (side : Nat → Bool) (links : List Nat) (i : Nat) : List Nat :=
  remaining (fun idx => side idx == side i) links.length links

theorem acrossLeft_perm (side : Nat → Bool) (links : List Nat) (i : Nat) :
    (acrossLeft side links i).Perm (links.filter fun idx => !(side idx == side i)) :=
  remaining_perm (Nat.le_refl _)

theorem Vec.size_lt_iff {α : Type} (v w : Vec α) :
    v.size < w.size ↔ v.items.length < w.items.length := by
  rw [UInt64.lt_iff_toNat_lt, Vec.size, Vec.size, UInt64.toNat_ofNat_of_lt' v.sized,
    UInt64.toNat_ofNat_of_lt' w.sized]

private theorem mapM_some {α β : Type} {f : α → Option β} {g : α → β} {l : List α}
    (all : ∀ x ∈ l, f x = some (g x)) : l.mapM f = some (l.map g) := by
  induction l with
  | nil => rfl
  | cons x l ih =>
    obtain ⟨first, others⟩ := List.forall_mem_cons.mp all
    simp [List.mapM_cons, first, ih others]

theorem Vectors.links_of_lt {v : Vectors} {i : Nat} (node : i < v.length) :
    ∃ links, v[i]? = some links ∧ v.links i = links.items :=
  ⟨v[i], List.getElem?_eq_getElem node, by simp [Vectors.links, node]⟩

theorem Vectors.links_of_le {v : Vectors} {i : Nat} (outside : v.length ≤ i) : v.links i = [] := by
  simp [Vectors.links, outside]

theorem Vectors.links_set {v : Vectors} {i : Nat} (node : i < v.length) (links : Vec Nat) :
    Vectors.links (v.set i links) = Function.update v.links i links.items := by
  funext j
  by_cases same : j = i
  · subst same
    simp [Vectors.links, node]
  · have other : (v.set i links)[j]? = v[j]? := List.getElem?_set_ne (Ne.symm same)
    rw [Function.update_of_ne same, Vectors.links, other]
    rfl

variable {inNeighbous outNeighbous : Vectors}

theorem findAuths_eq (same : inNeighbous.length = outNeighbous.length) :
    findAuths inNeighbous outNeighbous =
      some ((List.range inNeighbous.length).map (authority inNeighbous outNeighbous)) := by
  refine mapM_some fun i member => ?_
  have node : i < inNeighbous.length := List.mem_range.mp member
  obtain ⟨inLinks, inFound, inItems⟩ := Vectors.links_of_lt node
  obtain ⟨outLinks, outFound, outItems⟩ := Vectors.links_of_lt (same ▸ node)
  simp [inFound, outFound, authority, inItems, outItems, Vec.size_lt_iff]

/-! ### One node, and all of them -/

section Sides

variable {n : Nat} {side : Nat → Bool} {v : Vectors}

/-- All indices are those of nodes. -/
def InRange (n : Nat) (v : Vectors) : Prop := ∀ i, ∀ idx ∈ v.links i, idx < n

theorem inRange_of_all (all : ∀ links ∈ v, ∀ idx ∈ links.items, idx < n) : InRange n v := by
  intro i idx member
  by_cases node : i < v.length
  · obtain ⟨links, found, items⟩ := Vectors.links_of_lt node
    exact all links (List.mem_of_getElem? found) idx (items ▸ member)
  · rw [Vectors.links_of_le (Nat.le_of_not_lt node)] at member
    cases member

private theorem sameSide_eq (side : Nat → Bool) {i idx : Nat} (node : i < n) (inside : idx < n) :
    sameSide ((List.range n).map side) i idx = some (side idx == side i) := by
  simp [sameSide, node, inside]

theorem pruneNode_eq (side : Nat → Bool) {i : Nat} (node : i < n) (length : v.length = n)
    (inRange : ∀ idx ∈ v.links i, idx < n) :
    ∃ v', pruneNode ((List.range n).map side) i v = some v' ∧ v'.length = n ∧
      v'.links = Function.update v.links i (acrossLeft side (v.links i) i) := by
  subst length
  obtain ⟨links, found, items⟩ := Vectors.links_of_lt node
  rw [items] at inRange
  obtain ⟨left, pruned, what⟩ := filterInPlace_eq (fun idx => side idx == side i)
    fun idx member => sameSide_eq side node (inRange idx member)
  refine ⟨v.set i left, ?_, List.length_set, ?_⟩
  · rw [pruneNode, found, Option.bind_some, pruned, Option.map_some]
  · rw [Vectors.links_set node, what, items, acrossLeft]

private theorem inRange_update {v' : Vectors} {i : Nat}
    (links : v'.links = Function.update v.links i (acrossLeft side (v.links i) i))
    (inRange : InRange n v) :
    InRange n v' := by
  intro j idx member
  rw [links] at member
  -- what is left of a list was in it
  by_cases same : j = i
  · subst same
    rw [Function.update_self] at member
    exact inRange j idx (List.mem_of_mem_filter ((acrossLeft_perm _ _ _).mem_iff.mp member))
  · rw [Function.update_of_ne same] at member
    exact inRange j idx member

/-- Pruning one node, and the others after it. -/
private theorem pass_cons {v₁ v₂ : Vectors} {j : Nat} {l : List Nat} (fresh : j ∉ l)
    (links : v₁.links = Function.update v.links j (acrossLeft side (v.links j) j))
    (rest : ∀ i, v₂.links i = if i ∈ l then acrossLeft side (v₁.links i) i else v₁.links i)
    (i : Nat) :
    v₂.links i = if i ∈ j :: l then acrossLeft side (v.links i) i else v.links i := by
  rw [rest i, links]
  by_cases same : i = j
  · subst same
    simp [fresh]
  · simp [same]

/-- A pass over some nodes prunes these. -/
theorem pruneFrom_eq (side : Nat → Bool) {l : List Nat} (nodes : ∀ i ∈ l, i < n)
    (distinct : l.Nodup) {w : Vectors} (length : v.length = n) (length' : w.length = n)
    (inRange : InRange n v) (inRange' : InRange n w) :
    ∃ v' w', pruneFrom ((List.range n).map side) l v w = some (v', w') ∧ v'.length = n ∧
      w'.length = n ∧
      (∀ i, v'.links i = if i ∈ l then acrossLeft side (v.links i) i else v.links i) ∧
      ∀ i, w'.links i = if i ∈ l then acrossLeft side (w.links i) i else w.links i := by
  induction l generalizing v w with
  | nil => exact ⟨v, w, rfl, length, length', by simp, by simp⟩
  | cons j l ih =>
    obtain ⟨node, nodes⟩ := List.forall_mem_cons.mp nodes
    obtain ⟨fresh, distinct⟩ := List.nodup_cons.mp distinct
    obtain ⟨v₁, pruned, length₁, links⟩ := pruneNode_eq side node length (inRange j)
    obtain ⟨w₁, pruned', length₁', links'⟩ := pruneNode_eq side node length' (inRange' j)
    -- a node is pruned by the sides alone, so what the round before it changed does not matter
    obtain ⟨v₂, w₂, run, length₂, length₂', rest, rest'⟩ := ih nodes distinct length₁ length₁'
      (inRange_update links inRange) (inRange_update links' inRange')
    refine ⟨v₂, w₂, ?_, length₂, length₂', pass_cons fresh links rest, pass_cons fresh links' rest'⟩
    rw [pruneFrom, pruned, Option.bind_some, pruned', Option.bind_some, run]

end Sides

/-- The loops end, no access is out of bounds, and every list is cut down to the other side. -/
theorem prune_eq (same : inNeighbous.length = outNeighbous.length)
    (inRange : InRange inNeighbous.length inNeighbous)
    (inRange' : InRange inNeighbous.length outNeighbous) :
    ∃ inLeft outLeft, prune inNeighbous outNeighbous = some (inLeft, outLeft) ∧
      inLeft.length = inNeighbous.length ∧ outLeft.length = inNeighbous.length ∧
      (∀ i, inLeft.links i = acrossLeft (authority inNeighbous outNeighbous)
        (inNeighbous.links i) i) ∧
      ∀ i, outLeft.links i = acrossLeft (authority inNeighbous outNeighbous)
        (outNeighbous.links i) i := by
  obtain ⟨inLeft, outLeft, run, length, length', links, links'⟩ :=
    pruneFrom_eq (authority inNeighbous outNeighbous) (fun i member => List.mem_range.mp member)
      List.nodup_range rfl same.symm inRange inRange'
  refine ⟨inLeft, outLeft, ?_, length, length', ?_, ?_⟩
  · rw [prune, findAuths_eq same, Option.bind_some, run]
  · intro i
    rw [links i]
    split
    · rfl
    next outside =>
      -- beyond the vectors there are no links before and after
      rw [Vectors.links_of_le (by simpa using outside)]
      rfl
  · intro i
    rw [links' i]
    split
    · rfl
    next outside =>
      rw [Vectors.links_of_le (same ▸ (by simpa using outside))]
      rfl

/-- Every list is left with its entries on the other side, in some order, and lists that were
transposes stay transposes. -/
theorem prune_bipartite (same : inNeighbous.length = outNeighbous.length)
    (inRange : InRange inNeighbous.length inNeighbous)
    (inRange' : InRange inNeighbous.length outNeighbous) :
    ∃ inLeft outLeft, prune inNeighbous outNeighbous = some (inLeft, outLeft) ∧
      inLeft.length = inNeighbous.length ∧ outLeft.length = outNeighbous.length ∧
      (let side := authority inNeighbous outNeighbous
        ∀ i, (inLeft.links i).Perm ((inNeighbous.links i).filter fun idx => side idx != side i) ∧
          (outLeft.links i).Perm ((outNeighbous.links i).filter fun idx => side idx != side i)) ∧
      (Transposed inNeighbous.links outNeighbous.links →
        Transposed inLeft.links outLeft.links) := by
  obtain ⟨inLeft, outLeft, run, length, length', links, links'⟩ := prune_eq same inRange inRange'
  have order : ∀ i, (inLeft.links i).Perm ((inNeighbous.links i).filter fun idx =>
      authority inNeighbous outNeighbous idx != authority inNeighbous outNeighbous i) :=
    fun i => links i ▸ acrossLeft_perm _ _ _
  have order' : ∀ i, (outLeft.links i).Perm ((outNeighbous.links i).filter fun idx =>
      authority inNeighbous outNeighbous idx != authority inNeighbous outNeighbous i) :=
    fun i => links' i ▸ acrossLeft_perm _ _ _
  refine ⟨inLeft, outLeft, run, length, length'.trans same, fun i =>
    ⟨order i, order' i⟩, fun transposed => ?_⟩
  -- a link is judged alike from both of its ends
  let keep : Nat → Nat → Bool := fun i idx =>
    authority inNeighbous outNeighbous idx != authority inNeighbous outNeighbous i
  have symm : ∀ i j, keep i j = keep j i := fun i j => bne_comm
  exact (transposed.filter symm).of_perm order order'

/-- Nodes 0 and 2 link to node 1, which links back to node 0. -/
theorem prune_bipartite_link :
    let inNeighbous : Vectors := [⟨[1], by decide⟩, ⟨[0, 2], by decide⟩, ⟨[], by decide⟩]
    let outNeighbous : Vectors := [⟨[1], by decide⟩, ⟨[0], by decide⟩, ⟨[1], by decide⟩]
    ∃ inLeft outLeft, prune inNeighbous outNeighbous = some (inLeft, outLeft) ∧
      inLeft.length = inNeighbous.length ∧ outLeft.length = outNeighbous.length ∧
      (let side := authority inNeighbous outNeighbous
        ∀ i, (inLeft.links i).Perm ((inNeighbous.links i).filter fun idx => side idx != side i) ∧
          (outLeft.links i).Perm ((outNeighbous.links i).filter fun idx => side idx != side i)) ∧
      (Transposed inNeighbous.links outNeighbous.links → Transposed inLeft.links outLeft.links) :=
  prune_bipartite (by decide) (inRange_of_all (by decide)) (inRange_of_all (by decide))

/-! ### The graph of the ranking -/

section Refinement

variable {n : Nat}

/-- The lists of neighbours as the vectors that hold them. -/
def vectors (neighbous : Fin n → List (Fin n)) (sized : ∀ i, (neighbous i).length < UInt64.size) :
    Vectors :=
  List.ofFn fun i => ⟨(neighbous i).map Fin.val, by simpa using sized i⟩

theorem links_vectors {neighbous : Fin n → List (Fin n)}
    (sized : ∀ i, (neighbous i).length < UInt64.size) (i : Fin n) :
    (vectors neighbous sized).links i = (neighbous i).map Fin.val := by
  simp [vectors, Vectors.links]

theorem inRange_vectors {neighbous : Fin n → List (Fin n)}
    (sized : ∀ i, (neighbous i).length < UInt64.size) :
    InRange n (vectors neighbous sized) := by
  intro i idx member
  by_cases node : i < n
  · rw [links_vectors sized ⟨i, node⟩] at member
    obtain ⟨j, _, rfl⟩ := List.mem_map.mp member
    exact j.isLt
  · rw [Vectors.links_of_le (by simpa [vectors] using node)] at member
    cases member

/-- The loops over the vectors of a graph leave the vectors of its bipartite graph. -/
theorem prune_vectors (g : Graph n) (sized : ∀ i, (g.inNeighbous i).length < UInt64.size)
    (sized' : ∀ i, (g.outNeighbous i).length < UInt64.size) :
    ∃ inLeft outLeft, prune (vectors g.inNeighbous sized) (vectors g.outNeighbous sized') =
      some (inLeft, outLeft) ∧
      ∀ i : Fin n, inLeft.links i = (g.bipartite.inNeighbous i).map Fin.val ∧
        outLeft.links i = (g.bipartite.outNeighbous i).map Fin.val := by
  have length : (vectors g.inNeighbous sized).length = n := by simp [vectors]
  have length' : (vectors g.outNeighbous sized').length = n := by simp [vectors]
  have side : ∀ i : Fin n,
      authority (vectors g.inNeighbous sized) (vectors g.outNeighbous sized') i = g.isAuth i := by
    intro i
    simp [authority, links_vectors, Graph.isAuth]
  -- cutting a list of numbers down is cutting the list of nodes down
  have across : ∀ (l : List (Fin n)) (i : Fin n),
      acrossLeft (authority (vectors g.inNeighbous sized) (vectors g.outNeighbous sized'))
        (l.map Fin.val) i =
        (Graph.removeLinks (fun idx => g.isAuth idx == g.isAuth i) l).map Fin.val := by
    intro l i
    rw [acrossLeft, Graph.removeLinks_eq, List.length_map]
    exact remaining_map (fun idx => by rw [side, side]) _ _
  obtain ⟨inLeft, outLeft, run, -, -, links, links'⟩ := prune_eq (length.trans length'.symm)
    (length.symm ▸ inRange_vectors sized) (length.symm ▸ inRange_vectors sized')
  refine ⟨inLeft, outLeft, run, fun i => ⟨?_, ?_⟩⟩
  · rw [links, links_vectors, across, Graph.bipartite]
  · rw [links', links_vectors, across, Graph.bipartite]

end Refinement

end Tlgs
