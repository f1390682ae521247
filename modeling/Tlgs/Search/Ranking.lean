import Tlgs.Base.Hexadecimal
import Tlgs.Search.Hits
import Tlgs.Search.Merging
import Tlgs.Search.Network
import Mathlib.Analysis.SpecialFunctions.Log.Basic

/-!
# A search as a whole

`pageSearch` from the rows of its two queries to the list of results: the nodes with the columns
that were selected, their ranking in the graph, the score that combines it with the rank of the
text, and the deduplication. Text ranks and scores are numbers of any ordered field, with the
functions of the C library that the score is made with.
-/
namespace Tlgs

open Bytes Network

/-! ### Nodes with their columns -/

/-- A row of `nodes_of_intrest`. -/
structure FoundRow (Rank : Type) extends RootRow Rank where
  contentType : Str
  size : UInt64
  contentHash : Str

/-- A row of `links_to_node`. The columns are those of the page that the link leads to. -/
structure FoundLink extends LinkToNode where
  contentType : Str
  size : UInt64
  contentHash : Str

structure FoundNode (Rank : Type) extends Node Rank where
  contentType : Str
  size : UInt64
  contentHash : UInt64

/-- `std::stoull(content_hash, nullptr, 16)`. -/
def readHash (contentHash : Str) : Option UInt64 :=
  stoullHex (if contentHash = [] then lit "0" else contentHash)

section Nodes

variable {Rank : Type} [Zero Rank] [DecidableEq Rank]

/-- The body of the loop over the rows; nothing if `stoull` throws. -/
def addFound (nodes : List (FoundNode Rank)) (sourceUrl : Str) (rank : Rank) (contentType : Str)
    (size : UInt64) (contentHash : Str) : Option (List (FoundNode Rank)) :=
  if nodes.any (·.url == sourceUrl) then some nodes
  else (readHash contentHash).map fun hash => nodes ++ [
    { url := sourceUrl, textRank := rank, isRoot := decide (rank ≠ 0), contentType, size,
      contentHash := hash }]

def addFoundRow (nodes : List (FoundNode Rank)) (row : FoundRow Rank) :
    Option (List (FoundNode Rank)) :=
  addFound nodes row.sourceUrl row.rank row.contentType row.size row.contentHash

def addFoundLink (nodes : List (FoundNode Rank)) (link : FoundLink) :
    Option (List (FoundNode Rank)) :=
  addFound nodes link.sourceUrl 0 link.contentType link.size link.contentHash

def findNodes (rows : List (FoundRow Rank)) (links : List FoundLink) :
    Option (List (FoundNode Rank)) :=
  do
  let nodes ← rows.foldlM addFoundRow []
  links.foldlM addFoundLink nodes

end Nodes

/-! ### Scores -/

/-- What `ranking_algo` of the configuration may choose. -/
inductive RankingAlgorithm
  | hits
  | salsa
  deriving DecidableEq, Repr

def RankingAlgorithm.rank {n : Nat} : RankingAlgorithm → Graph n → Fin n → ℚ
  | .hits, g => hitsRank g
  | .salsa, g => salsaRank g

/-- The ranking of the nodes in the graph that the rows make of them. -/
def linkScore {Rank : Type} (algorithm : RankingAlgorithm) (rows : List (FoundRow Rank))
    (links : List FoundLink) (nodes : List (FoundNode Rank)) (i : Fin nodes.length) : ℚ :=
  algorithm.rank (buildGraph (nodes.map (·.toNode)) (rows.map (·.toRootRow))
    (links.map (·.toLinkToNode)))
    (i.cast (List.length_map _).symm)

/-- The greatest score, or one where that is zero. -/
def maxScore {n : Nat} (score : Fin n → ℚ) : ℚ :=
  let top := (List.ofFn score).max?.getD 0
  if top = 0 then 1 else top

/-- The functions of the C library, and `std::numbers::e`. -/
structure Elementary (K : Type) where
  exp : K → K
  log : K → K
  e : K

section Scores

variable {K : Type} [Field K] [LinearOrder K]

def Elementary.boost (m : Elementary K) (score maxScore : ℚ) : K :=
  m.exp ((score / maxScore * (13 / 2) : ℚ) : K)

def discourageSize : UInt64 := 48 * 1000

/-- "discourage pages too large". The division is one of integers. -/
def Elementary.discourage (m : Elementary K) (size : UInt64) (rank : K) : K :=
  if discourageSize < size then
    rank * (1 / m.log (m.e + (((size - discourageSize) / (1000 * 3)).toNat : K)))
  else rank

/-- The harmonic mean of the two, exact where the source rounds to a `float`. -/
def combine (boost rank : K) : K := 2 * (boost * rank) / (boost + rank)

variable (m : Elementary K) (algorithm : RankingAlgorithm)

/-- A node with the score that combines its text rank and its rank among the nodes. -/
def scoredPage (rows : List (FoundRow K)) (links : List FoundLink) (nodes : List (FoundNode K))
    (i : Fin nodes.length) : ScoredPage K :=
  let score := linkScore algorithm rows links nodes
  { url := nodes[i].url
    contentType := nodes[i].contentType
    size := nodes[i].size
    contentHash := nodes[i].contentHash
    score := combine (m.boost (score i) (maxScore score))
      (m.discourage nodes[i].size nodes[i].textRank)
    isRoot := nodes[i].isRoot }

def scoredPages (rows : List (FoundRow K)) (links : List FoundLink) (nodes : List (FoundNode K)) :
    List (ScoredPage K) :=
  List.ofFn (scoredPage m algorithm rows links nodes)

/-- `pageSearch` with the rows that the database answers. -/
def searchPages (replaceAll : Str → Str → Str → Str) (token : Str) (order : HashOrder K)
    (sorting : ScoreSort K) (rows : List (FoundRow K)) (links : List FoundLink) :
    Option (List (ScoredPage K)) :=
  if rows.isEmpty then some []
  else (findNodes rows links).map fun nodes =>
    pageSearch replaceAll token order sorting (scoredPages m algorithm rows links nodes)

end Scores

/-! ### The nodes that are made -/

/-- A fold that may fail, seen through a map, where each step is a step of another fold. -/
private theorem map_of_foldlM {α β γ : Type} {add : List β → α → Option (List β)}
    {add' : List γ → α → List γ} {f : β → γ}
    (each : ∀ before item after, add before item = some after →
      after.map f = add' (before.map f) item)
    {items : List α} {before after : List β} (all : items.foldlM add before = some after) :
    after.map f = items.foldl add' (before.map f) := by
  induction items generalizing before with
  | nil =>
    cases all
    rfl
  | cons item items ih =>
    rw [List.foldlM_cons, Option.bind_eq_bind, Option.bind_eq_some_iff] at all
    obtain ⟨middle, one, rest⟩ := all
    rw [ih rest, each _ _ _ one, List.foldl_cons]

private theorem isSome_foldlM {α β : Type} {add : List β → α → Option (List β)} {items : List α}
    (each : ∀ item ∈ items, ∀ before, (add before item).isSome) (before : List β) :
    (items.foldlM add before).isSome := by
  induction items generalizing before with
  | nil => rfl
  | cons item items ih =>
    obtain ⟨middle, one⟩ := Option.isSome_iff_exists.mp (each item List.mem_cons_self before)
    rw [List.foldlM_cons, one]
    exact ih (fun other member => each other (List.mem_cons_of_mem _ member)) middle

section Nodes

variable {Rank : Type} [Zero Rank] [DecidableEq Rank] {nodes nodes' : List (FoundNode Rank)}
  {rows : List (FoundRow Rank)} {links : List FoundLink}

theorem addFound_eq {sourceUrl contentType contentHash : Str} {rank : Rank} {size : UInt64}
    (added : addFound nodes sourceUrl rank contentType size contentHash = some nodes') :
    nodes'.map (·.toNode) = Network.addNode (nodes.map (·.toNode)) sourceUrl rank := by
  have same : (nodes.map (·.toNode)).any (·.url == sourceUrl) = nodes.any (·.url == sourceUrl) := by
    rw [List.any_map]
    rfl
  rw [addFound] at added
  rw [Network.addNode, same]
  split at added
  next present =>
    cases added
    rw [if_pos present]
  next absent =>
    obtain ⟨hash, -, rfl⟩ := Option.map_eq_some_iff.mp added
    rw [if_neg absent, List.map_append]
    rfl

/-- The nodes are those of the graph, with more columns. -/
theorem findNodes_eq (found : findNodes rows links = some nodes) :
    nodes.map (·.toNode) = buildNodes (rows.map (·.toRootRow)) (links.map (·.toLinkToNode)) := by
  rw [findNodes, Option.bind_eq_bind, Option.bind_eq_some_iff] at found
  obtain ⟨roots, first, second⟩ := found
  have root_nodes : roots.map (·.toNode) =
      rows.foldl (fun nodes row => Network.addNode nodes row.sourceUrl row.rank) [] :=
    map_of_foldlM (fun _ _ _ => addFound_eq) first
  have all_nodes : nodes.map (·.toNode) =
      links.foldl (fun nodes link => Network.addNode nodes link.sourceUrl 0)
        (roots.map (·.toNode)) :=
    map_of_foldlM (fun _ _ _ => addFound_eq) second
  rw [all_nodes, root_nodes, buildNodes, List.foldl_map, List.foldl_map]

theorem findNodes_distinct (found : findNodes rows links = some nodes) :
    (nodes.map (·.url)).Nodup := by
  have distinct := buildNodes_distinct (rows.map (·.toRootRow)) (links.map (·.toLinkToNode))
  rw [← findNodes_eq found, Distinct, List.map_map] at distinct
  exact distinct

omit [Zero Rank] [DecidableEq Rank] in
theorem node_of_url (distinct : (nodes.map (·.url)).Nodup) {i j : Fin nodes.length}
    (same : nodes[i].url = nodes[j].url) : i = j := by
  have equal : nodes[i] = nodes[j] :=
    List.inj_on_of_nodup_map distinct (List.getElem_mem i.isLt) (List.getElem_mem j.isLt) same
  exact Fin.ext ((List.Nodup.getElem_inj_iff distinct.of_map).mp equal)

/-- The node of the first row of its URL. -/
def rootNode (row : FoundRow Rank) (hash : UInt64) : FoundNode Rank :=
  { url := row.sourceUrl, textRank := row.rank, isRoot := decide (row.rank ≠ 0),
    contentType := row.contentType, size := row.size, contentHash := hash }

def Describes (row : FoundRow Rank) (node : FoundNode Rank) : Prop :=
  ∃ hash, readHash row.contentHash = some hash ∧ node = rootNode row hash

theorem urls_of_described (described : List.Forall₂ Describes rows nodes) :
    nodes.map (·.url) = rows.map (·.sourceUrl) := by
  induction described with
  | nil => rfl
  | cons first _ ih =>
    obtain ⟨hash, -, rfl⟩ := first
    rw [List.map_cons, List.map_cons, ih]
    rfl

theorem exists_row (described : List.Forall₂ Describes rows nodes) {node : FoundNode Rank}
    (member : node ∈ nodes) :
    ∃ row ∈ rows, Describes row node := by
  induction described with
  | nil => cases member
  | cons first _ ih =>
    rcases List.mem_cons.mp member with rfl | later
    · exact ⟨_, List.mem_cons_self, first⟩
    · obtain ⟨row, inside, describes⟩ := ih later
      exact ⟨row, List.mem_cons_of_mem _ inside, describes⟩

theorem exists_node (described : List.Forall₂ Describes rows nodes) {row : FoundRow Rank}
    (member : row ∈ rows) :
    ∃ node ∈ nodes, Describes row node := by
  induction described with
  | nil => cases member
  | cons first _ ih =>
    rcases List.mem_cons.mp member with rfl | later
    · exact ⟨_, List.mem_cons_self, first⟩
    · obtain ⟨node, inside, describes⟩ := ih later
      exact ⟨node, List.mem_cons_of_mem _ inside, describes⟩

/-- Rows of different URLs get a node each. -/
theorem roots_found {done : List (FoundRow Rank)}
    (distinct : ((done ++ rows).map (·.sourceUrl)).Nodup)
    (described : List.Forall₂ Describes done nodes)
    (found : rows.foldlM addFoundRow nodes = some nodes') :
    List.Forall₂ Describes (done ++ rows) nodes' := by
  induction rows generalizing done nodes with
  | nil =>
    cases found
    rwa [List.append_nil]
  | cons row rows ih =>
    rw [List.foldlM_cons, Option.bind_eq_bind, Option.bind_eq_some_iff] at found
    obtain ⟨middle, one, rest⟩ := found
    -- a row of the root set has no node yet
    have fresh : ¬nodes.any (·.url == row.sourceUrl) = true := by
      intro present
      obtain ⟨node, member, same⟩ := List.any_eq_true.mp present
      have earlier : row.sourceUrl ∈ done.map (·.sourceUrl) := by
        rw [← urls_of_described described, ← beq_iff_eq.mp same]
        exact List.mem_map_of_mem member
      rw [List.map_append] at distinct
      exact (List.disjoint_of_nodup_append distinct) earlier List.mem_cons_self
    rw [addFoundRow, addFound, if_neg fresh] at one
    obtain ⟨hash, read, rfl⟩ := Option.map_eq_some_iff.mp one
    have step : List.Forall₂ Describes (done ++ [row]) (nodes ++ [rootNode row hash]) :=
      List.rel_append described (.cons ⟨hash, read, rfl⟩ .nil)
    have appended : done ++ row :: rows = done ++ [row] ++ rows := by simp
    rw [appended] at distinct ⊢
    exact ih distinct step rest

/-- Behind them stand nodes that are no roots. -/
theorem links_found (found : links.foldlM addFoundLink nodes = some nodes') :
    ∃ more, nodes' = nodes ++ more ∧ ∀ node ∈ more, node.isRoot = false := by
  induction links generalizing nodes with
  | nil =>
    cases found
    exact ⟨[], by simp, nofun⟩
  | cons link links ih =>
    rw [List.foldlM_cons, Option.bind_eq_bind, Option.bind_eq_some_iff] at found
    obtain ⟨middle, one, rest⟩ := found
    obtain ⟨more, rfl, leaves⟩ := ih rest
    rw [addFoundLink, addFound] at one
    -- the link's page has a node already, or gets one that is no root
    split at one
    · cases one
      exact ⟨more, rfl, leaves⟩
    · obtain ⟨hash, -, rfl⟩ := Option.map_eq_some_iff.mp one
      refine ⟨_ :: more, List.append_assoc _ [_] more, fun node member => ?_⟩
      rcases List.mem_cons.mp member with rfl | later
      · simp
      · exact leaves node later

theorem findNodes_roots (distinct : (rows.map (·.sourceUrl)).Nodup)
    (found : findNodes rows links = some nodes) :
    ∃ roots more, nodes = roots ++ more ∧ List.Forall₂ Describes rows roots ∧
      ∀ node ∈ more, node.isRoot = false := by
  rw [findNodes, Option.bind_eq_bind, Option.bind_eq_some_iff] at found
  obtain ⟨roots, first, second⟩ := found
  obtain ⟨more, rfl, leaves⟩ := links_found second
  exact ⟨roots, more, rfl, roots_found distinct .nil first, leaves⟩

theorem addFound_isSome {sourceUrl contentType contentHash : Str} {rank : Rank} {size : UInt64}
    (read : (readHash contentHash).isSome) (nodes : List (FoundNode Rank)) :
    (addFound nodes sourceUrl rank contentType size contentHash).isSome := by
  rw [addFound]
  split
  · rfl
  · rwa [Option.isSome_map]

/-- Where all hashes are read, nothing is thrown. -/
theorem findNodes_isSome (read : ∀ row ∈ rows, (readHash row.contentHash).isSome)
    (read' : ∀ link ∈ links, (readHash link.contentHash).isSome) :
    (findNodes rows links).isSome := by
  have first : (rows.foldlM addFoundRow []).isSome :=
    isSome_foldlM (fun row member => addFound_isSome (read row member)) []
  obtain ⟨roots, first⟩ := Option.isSome_iff_exists.mp first
  rw [findNodes, first]
  exact isSome_foldlM (fun link member => addFound_isSome (read' link member)) roots

end Nodes

/-! ### The score -/

/-- What the functions of the C library are known for, as far as the score rests on it. -/
structure Elementary.Laws {K : Type} [Field K] [LinearOrder K] (m : Elementary K) : Prop where
  exp_pos : ∀ x, 0 < m.exp x
  exp_mono : ∀ x y, x ≤ y → m.exp x ≤ m.exp y
  log_e : m.log m.e = 1
  log_mono : ∀ x y, m.e ≤ x → x ≤ y → m.log x ≤ m.log y

section Scores

variable {K : Type} [Field K] [LinearOrder K] [IsStrictOrderedRing K]

/-- More of either is no less in all. -/
theorem combine_mono {boost boost' rank rank' : K} (positive : 0 < boost) (nonneg : 0 ≤ rank)
    (more : boost ≤ boost') (more' : rank ≤ rank') : combine boost rank ≤ combine boost' rank' := by
  have positive' : 0 < boost' := positive.trans_le more
  have nonneg' : 0 ≤ rank' := nonneg.trans more'
  rw [combine, combine, div_le_div_iff₀ (add_pos_of_pos_of_nonneg positive nonneg)
    (add_pos_of_pos_of_nonneg positive' nonneg')]
  have first : boost * boost' * rank ≤ boost * boost' * rank' :=
    mul_le_mul_of_nonneg_left more' (mul_pos positive positive').le
  have second : boost * (rank * rank') ≤ boost' * (rank * rank') :=
    mul_le_mul_of_nonneg_right more (mul_nonneg nonneg nonneg')
  linarith

variable {m : Elementary K}

theorem boost_mono (laws : m.Laws) {top low high : ℚ} (positive : 0 < top) (le : low ≤ high) :
    m.boost low top ≤ m.boost high top := by
  refine laws.exp_mono _ _ (Rat.cast_le.mpr ?_)
  have scaled := div_le_div_of_nonneg_right le positive.le
  linarith

/-- What a text rank is divided by because of the size. -/
def Elementary.sizeFactor (m : Elementary K) (size : UInt64) : K :=
  if discourageSize < size then m.log (m.e + (((size - discourageSize) / (1000 * 3)).toNat : K))
    else 1

omit [LinearOrder K] [IsStrictOrderedRing K] in
theorem discourage_eq (size : UInt64) (rank : K) :
    m.discourage size rank = rank / m.sizeFactor size := by
  rw [Elementary.discourage, Elementary.sizeFactor]
  split
  · rw [mul_one_div]
  · rw [div_one]

theorem one_le_sizeFactor (laws : m.Laws) (size : UInt64) : 1 ≤ m.sizeFactor size := by
  rw [Elementary.sizeFactor]
  split
  · rw [← laws.log_e]
    exact laws.log_mono _ _ le_rfl (le_add_of_nonneg_right (Nat.cast_nonneg _))
  · exact le_rfl

theorem sizeFactor_mono (laws : m.Laws) {small large : UInt64} (le : small ≤ large) :
    m.sizeFactor small ≤ m.sizeFactor large := by
  by_cases discouraged : discourageSize < small
  · -- both are too large
    have below : discourageSize ≤ small := UInt64.le_of_lt discouraged
    have steps : ((small - discourageSize) / (1000 * 3)).toNat ≤
        ((large - discourageSize) / (1000 * 3)).toNat := by
      rw [UInt64.toNat_div, UInt64.toNat_div, UInt64.toNat_sub_of_le _ _ below,
        UInt64.toNat_sub_of_le _ _ (UInt64.le_trans below le)]
      exact Nat.div_le_div_right (Nat.sub_le_sub_right (UInt64.le_iff_toNat_le.mp le) _)
    rw [Elementary.sizeFactor, Elementary.sizeFactor, if_pos discouraged,
      if_pos (UInt64.lt_of_lt_of_le discouraged le)]
    refine laws.log_mono _ _ (le_add_of_nonneg_right (Nat.cast_nonneg _)) ?_
    exact add_le_add_right (Nat.cast_le.mpr steps) m.e
  · rw [Elementary.sizeFactor, if_neg discouraged]
    exact one_le_sizeFactor laws large

theorem discourage_nonneg (laws : m.Laws) (size : UInt64) {rank : K} (nonneg : 0 ≤ rank) :
    0 ≤ m.discourage size rank := by
  rw [discourage_eq]
  exact div_nonneg nonneg (zero_le_one.trans (one_le_sizeFactor laws size))

theorem discourage_mono (laws : m.Laws) {small large : UInt64} {low high : K} (nonneg : 0 ≤ low)
    (more : low ≤ high) (le : small ≤ large) :
    m.discourage large low ≤ m.discourage small high := by
  have positive : 0 < m.sizeFactor small := zero_lt_one.trans_le (one_le_sizeFactor laws small)
  rw [discourage_eq, discourage_eq]
  exact div_le_div₀ (nonneg.trans more) more positive (sizeFactor_mono laws le)

end Scores

/-! ### The ranking -/

theorem RankingAlgorithm.rank_nonneg {n : Nat} (algorithm : RankingAlgorithm) (g : Graph n)
    (i : Fin n) :
    0 ≤ algorithm.rank g i := by
  cases algorithm with
  | hits =>
    obtain ⟨k, _, same, _⟩ := hitsRank_after g
    rw [RankingAlgorithm.rank, same]
    exact (hitsAfter_bounded g (k + 1)).auth i
  | salsa =>
    obtain ⟨k, _, same⟩ := salsaRank_after g
    rw [RankingAlgorithm.rank, same]
    exact (salsaAfter_nonneg g (k + 1) i).1

theorem maxScore_pos {n : Nat} {score : Fin n → ℚ} (nonneg : ∀ i, 0 ≤ score i) :
    0 < maxScore score := by
  have top : 0 ≤ (List.ofFn score).max?.getD 0 := by
    cases most : (List.ofFn score).max? with
    | none => exact le_rfl
    | some q =>
      obtain ⟨i, rfl⟩ := List.mem_ofFn.mp (List.max?_mem most)
      exact nonneg i
  simp only [maxScore]
  split
  · exact zero_lt_one
  next other => exact lt_of_le_of_ne top (Ne.symm other)

/-! ### From the tables to the results -/

/-- A hash as it is stored with a page. -/
def PrintedHash (text : Str) : Prop := ∃ bytes, bytes.length = 8 ∧ text = binaryStringToHex bytes

theorem PrintedHash.readHash_eq {text : Str} (printed : PrintedHash text) :
    readHash text = stoullHex text := by
  obtain ⟨_ | ⟨c, bytes⟩, length, rfl⟩ := printed
  · cases length
  · rw [readHash, if_neg (by simp [binaryStringToHex, byteToHex])]

theorem PrintedHash.isSome {text : Str} (printed : PrintedHash text) : (readHash text).isSome := by
  rw [printed.readHash_eq]
  obtain ⟨bytes, length, rfl⟩ := printed
  have some_byte : bytes ≠ [] := by
    rintro rfl
    cases length
  rw [stoullHex_binaryStringToHex some_byte length.le]
  rfl

theorem PrintedHash.eq_of_read {text text' : Str} (printed : PrintedHash text)
    (printed' : PrintedHash text') (same : readHash text = readHash text') : text = text' := by
  rw [printed.readHash_eq, printed'.readHash_eq] at same
  obtain ⟨bytes, length, rfl⟩ := printed
  obtain ⟨bytes', length', rfl⟩ := printed'
  rw [binaryStringToHex_of_read length length' same]

section Search

variable {K : Type} [Field K] [LinearOrder K] [IsStrictOrderedRing K]

/-- The rows of the first query, with the columns of the pages. -/
structure AnswersFound (search : TextSearch K) (pages : Table Str PageRow)
    (rows : List (FoundRow K)) : Prop where
  root : AnswersRoot search pages (rows.map (·.toRootRow))
  columns : ∀ row ∈ rows, ∀ page, pages row.sourceUrl = some page →
    row.contentType = page.contentType.getD [] ∧ row.size = UInt64.ofNat page.size ∧
      row.contentHash = page.indexedContentHash

variable {m : Elementary K} {algorithm : RankingAlgorithm} {replaceAll : Str → Str → Str → Str}
  {token : Str} {order : HashOrder K}
  {sorting : ScoreSort K} {search : TextSearch K} {pages : Table Str PageRow}
    {rows : List (FoundRow K)}
  {links : List FoundLink} {nodes : List (FoundNode K)}

omit [LinearOrder K] [IsStrictOrderedRing K] in
theorem scoredPages_urls :
    (scoredPages m algorithm rows links nodes).map (·.url) = nodes.map (·.url) := by
  have urls : (·.url) ∘ scoredPage m algorithm rows links nodes = (·.url) ∘ nodes.get := rfl
  rw [scoredPages, List.map_ofFn, urls, ← List.map_ofFn, List.ofFn_get]

/-- A node that is no worse in all that its score is made of. -/
structure NoWorse (algorithm : RankingAlgorithm) (rows : List (FoundRow K)) (links : List FoundLink)
    (nodes : List (FoundNode K)) (i j : Fin nodes.length) : Prop where
  rank : nodes[j].textRank ≤ nodes[i].textRank
  link : linkScore algorithm rows links nodes j ≤ linkScore algorithm rows links nodes i
  size : nodes[i].size ≤ nodes[j].size

theorem score_mono (laws : m.Laws) {i j : Fin nodes.length}
    (noWorse : NoWorse algorithm rows links nodes i j) (nonneg : 0 ≤ nodes[j].textRank) :
    (scoredPage m algorithm rows links nodes j).score ≤
      (scoredPage m algorithm rows links nodes i).score := by
  have top := maxScore_pos fun k : Fin nodes.length =>
    algorithm.rank_nonneg (buildGraph (nodes.map (·.toNode)) (rows.map (·.toRootRow))
      (links.map (·.toLinkToNode)))
      (k.cast (List.length_map _).symm)
  refine combine_mono (laws.exp_pos _) (discourage_nonneg laws _ nonneg)
    (boost_mono laws top noWorse.link) ?_
  exact discourage_mono laws nonneg noWorse.rank noWorse.size

omit [IsStrictOrderedRing K] in
/-- What is known of a result: its node, and the row that this stands for. -/
theorem result_row (distinct : (rows.map (·.sourceUrl)).Nodup)
    (found : findNodes rows links = some nodes) {result : ScoredPage K}
    (kept : result ∈ rootPages (scoredPages m algorithm rows links nodes)) :
    ∃ i, result = scoredPage m algorithm rows links nodes i ∧ ∃ row ∈ rows, Describes row nodes[i] ∧
      row.rank ≠ 0 := by
  obtain ⟨member, isRoot⟩ := List.mem_filter.mp kept
  obtain ⟨i, rfl⟩ := List.mem_ofFn.mp member
  obtain ⟨roots, more, rfl, described, leaves⟩ := findNodes_roots distinct found
  refine ⟨i, rfl, ?_⟩
  rcases List.mem_append.mp (List.getElem_mem i.isLt) with root | leaf
  · obtain ⟨row, inside, describes⟩ := exists_row described root
    refine ⟨row, inside, describes, ?_⟩
    obtain ⟨hash, _, same⟩ := describes
    have nonzero : decide (row.rank ≠ 0) = true := (congrArg (·.isRoot) same).symm.trans isRoot
    exact of_decide_eq_true nonzero
  · exact absurd isRoot (by simp [scoredPage, leaves _ leaf])

omit [IsStrictOrderedRing K] in
/-- A row of rank other than zero stands for a page that takes part in the deduplication. -/
theorem row_root (distinct : (rows.map (·.sourceUrl)).Nodup)
    (found : findNodes rows links = some nodes) {row : FoundRow K} (member : row ∈ rows)
    (nonzero : row.rank ≠ 0) :
    ∃ page ∈ rootPages (scoredPages m algorithm rows links nodes),
      readHash row.contentHash = some page.contentHash := by
  obtain ⟨roots, more, rfl, described, _⟩ := findNodes_roots distinct found
  obtain ⟨node, inside, hash, read, rfl⟩ := exists_node described member
  obtain ⟨i, bound, same⟩ := List.getElem_of_mem (List.mem_append_left more inside)
  refine ⟨_, List.mem_filter.mpr ⟨List.mem_ofFn.mpr ⟨⟨i, bound⟩, rfl⟩, ?_⟩, ?_⟩
  · simp [scoredPage, same, rootNode, nonzero]
  · simp [scoredPage, same, rootNode, read]

omit [IsStrictOrderedRing K] in
/-- Without a row no page is left for the deduplication either. -/
theorem searchPages_eq (distinct : (rows.map (·.sourceUrl)).Nodup)
    (found : findNodes rows links = some nodes) :
    searchPages m algorithm replaceAll token order sorting rows links =
      some (pageSearch replaceAll token order sorting
        (scoredPages m algorithm rows links nodes)) := by
  rw [searchPages, found]
  split
  -- without rows there are no nodes to rank
  next empty =>
    rw [List.isEmpty_iff.mp empty] at distinct found ⊢
    have none : pageSearch replaceAll token order sorting (scoredPages m algorithm [] links nodes) =
        [] := by
      refine List.eq_nil_iff_forall_not_mem.mpr fun result member => ?_
      have root := (pageSearch_subperm sorting _).subset member
      obtain ⟨_, _, row, inside, _⟩ := result_row distinct found root
      cases inside
    rw [none]
  next => rfl

omit [Field K] [IsStrictOrderedRing K] in
/-- The row of a page that matches is there, or there are too many rows. -/
theorem row_of_match (found : AnswersFound search pages rows) {url : Str} {page : PageRow}
    (stored : pages url = some page) (isMatch : search.isMatch page = true)
    (room : rows.length < 50000 ∨ url ∈ rows.map (·.sourceUrl)) :
    ∃ row ∈ rows, row.sourceUrl = url ∧ row.rank = search.rank page ∧
      row.contentHash = page.indexedContentHash := by
  have listed : url ∈ rows.map (·.sourceUrl) := by
    by_contra absent
    have full := (found.root.rest url page stored isMatch (by rwa [List.map_map])).1
    rw [List.length_map] at full
    exact room.elim (by omega) absent
  obtain ⟨row, member, rfl⟩ := List.mem_map.mp listed
  obtain ⟨page', stored', _, _, rank⟩ := found.root.selected _ (List.mem_map_of_mem member)
  cases stored.symm.trans stored'
  exact ⟨row, member, rfl, rank, (found.columns row member page stored).2.2⟩

/-- A search finds pages that match and have a rank, each at most once; one that is no worse than
another in text rank, rank in the graph and size is listed behind it only with the same score; and
the content of every page that matches is found, unless there were too many rows. -/
theorem search_finds (laws : m.Laws) (found : AnswersFound search pages rows)
    (ranks : ∀ page, 0 ≤ search.rank page) (hashed : ∀ row ∈ rows, PrintedHash row.contentHash)
    (hashed' : ∀ link ∈ links, PrintedHash link.contentHash) :
    ∃ results nodes, searchPages m algorithm replaceAll token order sorting rows links =
      some results ∧
      findNodes rows links = some nodes ∧ (results.map (·.url)).Nodup ∧
      (∀ result ∈ results, ∃ page, pages result.url = some page ∧ search.isMatch page = true ∧
        search.rank page ≠ 0 ∧ result.contentType = page.contentType.getD [] ∧
        result.size = UInt64.ofNat page.size) ∧
      results.Pairwise (fun ahead behind => behind.score ≤ ahead.score ∧
        ∀ i j, nodes[i].url = ahead.url → nodes[j].url = behind.url →
          NoWorse algorithm rows links nodes j i →
          ahead.score = behind.score) ∧
      ∀ url page, pages url = some page → search.isMatch page = true → search.rank page ≠ 0 →
        rows.length < 50000 ∨ url ∈ rows.map (·.sourceUrl) →
          ∃ result ∈ results, ∃ page', pages result.url = some page' ∧
            page'.indexedContentHash = page.indexedContentHash := by
  have distinct : (rows.map (·.sourceUrl)).Nodup := by
    have urls := found.root.distinct
    rwa [List.map_map] at urls
  obtain ⟨nodes, made⟩ := Option.isSome_iff_exists.mp (findNodes_isSome
    (fun row member => (hashed row member).isSome) fun link member => (hashed' link member).isSome)
  have subperm : (pageSearch replaceAll token order sorting
      (scoredPages m algorithm rows links nodes)).Subperm _ := pageSearch_subperm sorting _
  have origin : ∀ result ∈ pageSearch replaceAll token order sorting
      (scoredPages m algorithm rows links nodes),
      ∃ i, result = scoredPage m algorithm rows links nodes i ∧
        ∃ row ∈ rows, Describes row nodes[i] ∧
        row.rank ≠ 0 :=
    fun result member => result_row distinct made (subperm.subset member)
  have page_of : ∀ result ∈ pageSearch replaceAll token order sorting
      (scoredPages m algorithm rows links nodes),
      ∃ row ∈ rows, ∃ page, pages result.url = some page ∧ row.sourceUrl = result.url ∧
        search.isMatch page = true ∧ search.rank page ≠ 0 ∧
        result.contentType = page.contentType.getD [] ∧
        result.size = UInt64.ofNat page.size ∧
        readHash page.indexedContentHash = some result.contentHash ∧
        row.contentHash = page.indexedContentHash := by
    intro result member
    obtain ⟨i, rfl, row, inside, ⟨hash, read, same⟩, nonzero⟩ := origin result member
    obtain ⟨page, stored, isMatch, _, rank⟩ := found.root.selected _ (List.mem_map_of_mem inside)
    obtain ⟨type, size, text⟩ := found.columns row inside page stored
    simp only [scoredPage, same, rootNode]
    exact ⟨row, inside, page, stored, rfl, isMatch, rank ▸ nonzero, type, size, text ▸ read, text⟩
  refine ⟨_, nodes, searchPages_eq distinct made, made, ?_, ?_, ?_, ?_⟩
  · -- a result is one of the nodes, which have URLs of their own
    have roots : ((rootPages (scoredPages m algorithm rows links nodes)).map (·.url)).Nodup := by
      refine List.Nodup.sublist (List.filter_sublist.map _) ?_
      rw [scoredPages_urls]
      exact findNodes_distinct made
    obtain ⟨chosen, order', sublist⟩ := subperm
    exact (order'.map _).nodup_iff.mp (roots.sublist (sublist.map _))
  · intro result member
    obtain ⟨row, _, page, stored, _, isMatch, nonzero, type, size, _⟩ := page_of result member
    exact ⟨page, stored, isMatch, nonzero, type, size⟩
  · have sorted := sorting.descending
      (deduplicateFrom replaceAll token order [] 0 (scoredPages m algorithm rows links nodes))
    refine sorted.imp_of_mem fun {ahead behind} first second le =>
      ⟨le, fun i j here there noWorse => ?_⟩
    obtain ⟨i', rfl, row, inside, ⟨_, _, same⟩, _⟩ := origin ahead first
    obtain ⟨j', rfl, _⟩ := origin behind second
    cases node_of_url (findNodes_distinct made) here
    cases node_of_url (findNodes_distinct made) there
    obtain ⟨page, _, _, _, rank⟩ := found.root.selected _ (List.mem_map_of_mem inside)
    refine le_antisymm (score_mono laws noWorse ?_) le
    rw [same]
    exact (ranks page).trans_eq rank.symm
  · intro url page stored isMatch nonzero room
    obtain ⟨row, inside, rfl, rank, text⟩ := row_of_match found stored isMatch room
    obtain ⟨root, taking, read⟩ : ∃ root ∈ rootPages (scoredPages m algorithm rows links nodes),
        readHash row.contentHash = some root.contentHash :=
          row_root distinct made inside (rank ▸ nonzero)
    obtain ⟨result, kept, same⟩ := pageSearch_same_content sorting taking
    obtain ⟨row', inside', page', stored', _, _, _, _, _, read', text'⟩ := page_of result kept
    refine ⟨result, kept, page', stored', ?_⟩
    rw [← text, ← text']
    refine (hashed row' inside').eq_of_read (hashed row inside) ?_
    rw [text', read', read, same]

end Search

/-- `exp` and `log` on the reals. -/
noncomputable def Elementary.real : Elementary ℝ := ⟨Real.exp, Real.log, Real.exp 1⟩

theorem Elementary.real_laws : Elementary.real.Laws where
  exp_pos := Real.exp_pos
  exp_mono _ _ := Real.exp_le_exp.mpr
  log_e := Real.log_exp 1
  log_mono _ _ least := Real.log_le_log ((Real.exp_pos 1).trans_le least)

/-- A page whose hash is eight zero bytes. -/
def hashedPage : PageRow :=
  { domainName := lit "b", port := 1965, firstSeenAt := 0, contentType := some (lit "text/gemini"),
    size := 4, indexedContentHash := binaryStringToHex [0, 0, 0, 0, 0, 0, 0, 0] }

theorem search_finds_page :
    let pages : Table Str PageRow :=
      fun url => if url = lit "gemini://b/" then some hashedPage else none
    let search : TextSearch ℝ := ⟨fun page => page.domainName == lit "b", fun _ => 1⟩
    let rows : List (FoundRow ℝ) := [
      { sourceUrl := lit "gemini://b/", crossSiteLinks := none, rank := 1,
        contentType := lit "text/gemini", size := 4,
        contentHash := binaryStringToHex [0, 0, 0, 0, 0, 0, 0, 0] }]
    let order : HashOrder ℝ := ⟨fun _ pages => pages, fun _ _ => List.Perm.refl _⟩
    ∃ results nodes, searchPages Elementary.real .salsa Bytes.replaceAll
      (lit "/x") order scoreSort rows [] = some results ∧
      findNodes rows [] = some nodes ∧ (results.map (·.url)).Nodup ∧
      (∀ result ∈ results, ∃ page, pages result.url = some page ∧ search.isMatch page = true ∧
        search.rank page ≠ 0 ∧ result.contentType = page.contentType.getD [] ∧
        result.size = UInt64.ofNat page.size) ∧
      results.Pairwise (fun ahead behind => behind.score ≤ ahead.score ∧
        ∀ i j, nodes[i].url = ahead.url → nodes[j].url = behind.url →
          NoWorse .salsa rows [] nodes j i →
          ahead.score = behind.score) ∧
      ∀ url page, pages url = some page → search.isMatch page = true → search.rank page ≠ 0 →
        rows.length < 50000 ∨ url ∈ rows.map (·.sourceUrl) →
          ∃ result ∈ results, ∃ page', pages result.url = some page' ∧
            page'.indexedContentHash = page.indexedContentHash := by
  intro pages search rows order
  -- the table has one page
  have only : ∀ {url page}, pages url = some page → url = lit "gemini://b/" ∧
      page = hashedPage := by
    intro url page stored
    simp only [pages] at stored
    split at stored
    next here =>
      cases stored
      exact ⟨here, rfl⟩
    next => cases stored
  refine search_finds Elementary.real_laws
    ⟨⟨by simp [rows], ?_, by simp [rows], by simp [rows], ?_⟩, ?_⟩
    (fun _ => zero_le_one) ?_ nofun
  · intro row member
    cases List.mem_singleton.mp member
    exact ⟨hashedPage, if_pos rfl, by decide, rfl, rfl⟩
  · intro url page stored _ absent
    obtain ⟨rfl, _⟩ := only stored
    exact absurd List.mem_cons_self absent
  · intro row member page stored
    cases List.mem_singleton.mp member
    obtain ⟨_, rfl⟩ := only stored
    exact ⟨rfl, rfl, rfl⟩
  · intro row member
    cases List.mem_singleton.mp member
    exact ⟨_, rfl, rfl⟩

end Tlgs
