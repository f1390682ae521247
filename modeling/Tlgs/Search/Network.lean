import Tlgs.Crawler.Tables
import Tlgs.Search.Salsa

/-!
# The network of a search

The graph that `pageSearch` builds from its two queries: the pages that match, at most 50000 of
them, with the links stored in their rows, and the cross-site links of the `links` table to any
page that matches. Both answers may come in any order that the statements allow.
-/
namespace Tlgs

open Bytes Neighbours

/-- What full text search makes of a row for the query. -/
structure TextSearch (Rank : Type) where
  isMatch : PageRow → Bool
  rank : PageRow → Rank

/-- A row of `nodes_of_intrest`. -/
structure RootRow (Rank : Type) where
  sourceUrl : Str
  crossSiteLinks : Option (List Str)
  rank : Rank
  deriving DecidableEq, Repr

/-- A row of `links_to_node`. Its rank is zero. -/
structure LinkToNode where
  destUrl : Str
  sourceUrl : Str
  deriving DecidableEq, Repr

structure Node (Rank : Type) where
  url : Str
  textRank : Rank
  isRoot : Bool
  deriving DecidableEq, Repr

namespace Graph

variable {n : Nat}

def empty : Graph n := ⟨fun _ => [], fun _ => []⟩

/-- A link enters the lists of both its ends. -/
def addLink (g : Graph n) (source dest : Fin n) : Graph n where
  outNeighbous := Function.update g.outNeighbous source (g.outNeighbous source ++ [dest])
  inNeighbous := Function.update g.inNeighbous dest (g.inNeighbous dest ++ [source])

end Graph

namespace Network

/-! ### Building the graph -/

section Build

variable {Rank : Type} [Zero Rank] [DecidableEq Rank]

/-- `node_table` holds the index of each URL that has a node. -/
def addNode (nodes : List (Node Rank)) (sourceUrl : Str) (rank : Rank) : List (Node Rank) :=
  if nodes.any (·.url == sourceUrl) then nodes else nodes ++ [⟨sourceUrl, rank, decide (rank ≠ 0)⟩]

def buildNodes (nodesOfIntrest : List (RootRow Rank)) (linksToNode : List LinkToNode) :
    List (Node Rank) :=
  linksToNode.foldl (fun nodes link => addNode nodes link.sourceUrl 0)
    (nodesOfIntrest.foldl (fun nodes link => addNode nodes link.sourceUrl link.rank) [])

omit [Zero Rank] [DecidableEq Rank] in
def getIfExists (nodes : List (Node Rank)) (name : Str) : Option (Fin nodes.length) :=
  nodes.findFinIdx? (·.url == name)

/-- The links in the row of a page that matches. -/
def addRowLinks (nodes : List (Node Rank)) (g : Graph nodes.length) (page : RootRow Rank) :
    Graph nodes.length :=
  match page.crossSiteLinks with
  | none => g
  | some links =>
    match getIfExists nodes page.sourceUrl with
    | none => g
    | some source =>
      links.foldl (fun g link =>
        match getIfExists nodes link with
        | none => g
        | some dest => if page.sourceUrl = link then g else g.addLink source dest) g

/-- A row of the `links` table. -/
def addTableLink (nodes : List (Node Rank)) (g : Graph nodes.length) (link : LinkToNode) :
    Graph nodes.length :=
  if link.sourceUrl = link.destUrl then g
  else
    match getIfExists nodes link.sourceUrl, getIfExists nodes link.destUrl with
    | some source, some dest => g.addLink source dest
    | _, _ => g

def buildGraph (nodes : List (Node Rank)) (nodesOfIntrest : List (RootRow Rank))
    (linksToNode : List LinkToNode) :
    Graph nodes.length :=
  linksToNode.foldl (addTableLink nodes) (nodesOfIntrest.foldl (addRowLinks nodes) Graph.empty)

end Build

/-! ### What the database answers -/

section Answers

variable {Rank : Type} [LinearOrder Rank] (search : TextSearch Rank) (pages : Table Str PageRow)

/-- `SELECT … WHERE search_vector @@ plainto_tsquery($1) ORDER BY rank DESC LIMIT 50000`. -/
structure AnswersRoot (rows : List (RootRow Rank)) : Prop where
  distinct : (rows.map (·.sourceUrl)).Nodup
  selected : ∀ row ∈ rows, ∃ page, pages row.sourceUrl = some page ∧ search.isMatch page = true ∧
    row.crossSiteLinks = page.crossSiteLinks ∧ row.rank = search.rank page
  ordered : rows.Pairwise fun a b => b.rank ≤ a.rank
  limit : rows.length ≤ 50000
  rest : ∀ url page, pages url = some page → search.isMatch page = true →
    url ∉ rows.map (·.sourceUrl) →
    rows.length = 50000 ∧ ∀ row ∈ rows, search.rank page ≤ row.rank

omit [LinearOrder Rank] in
/-- The page is there and matches. -/
def matchesUrl (url : Str) : Bool := (pages url).any search.isMatch

/-- `SELECT … FROM pages JOIN links ON pages.url=links.to_url WHERE links.is_cross_site = TRUE AND
…`. -/
def AnswersLinks (links : Multiset LinkRow) (rows : List LinkToNode) : Prop :=
  (rows : Multiset LinkToNode) =
    (links.filter fun link => link.isCrossSite = true ∧
      matchesUrl search pages link.toUrl = true).map
      fun link => ⟨link.toUrl, link.url⟩

omit [LinearOrder Rank] in
instance (links : Multiset LinkRow) (rows : List LinkToNode) :
    Decidable (AnswersLinks search pages links rows) :=
  inferInstanceAs (Decidable (_ = _))

omit [LinearOrder Rank] in
/-- The list in the row of a page, if it has one. -/
def storedLinks (url : Str) : List Str := ((pages url).bind (·.crossSiteLinks)).getD []

/-- `links` holds one cross-site row for each URL in the list of a page, and the lists have no
repetitions. -/
structure LinksStored (links : Multiset LinkRow) : Prop where
  once : ∀ s d, (links.filter fun link => link.isCrossSite = true ∧ link.url = s ∧
    link.toUrl = d).card =
    if d ∈ storedLinks pages s then 1 else 0
  distinct : ∀ s, (storedLinks pages s).Nodup

end Answers

/-! ### The links that are added -/

section Links

variable {Rank : Type} {nodes : List (Node Rank)} {u v : Fin nodes.length}

/-- The link between two URLs, if they are not the same and both have a node. -/
def linkBetween (nodes : List (Node Rank)) (sourceUrl destUrl : Str) :
    Option (Fin nodes.length × Fin nodes.length) :=
  if sourceUrl = destUrl then none
  else (getIfExists nodes sourceUrl).bind fun source => (getIfExists nodes destUrl).map (source, ·)

def addLinks {n : Nat} (g : Graph n) (links : List (Fin n × Fin n)) : Graph n :=
  links.foldl (fun g link => g.addLink link.1 link.2) g

def rowLinks (nodes : List (Node Rank)) (page : RootRow Rank) :
    List (Fin nodes.length × Fin nodes.length) :=
  (page.crossSiteLinks.getD []).filterMap (linkBetween nodes page.sourceUrl)

def tableLinks (nodes : List (Node Rank)) (links : List LinkToNode) :
    List (Fin nodes.length × Fin nodes.length) :=
  links.filterMap fun link => linkBetween nodes link.sourceUrl link.destUrl

theorem addRowLinks_eq (g : Graph nodes.length) (page : RootRow Rank) :
    addRowLinks nodes g page = addLinks g (rowLinks nodes page) := by
  rw [addLinks, rowLinks, List.foldl_filterMap, addRowLinks]
  cases page.crossSiteLinks with
  | none => rfl
  | some links =>
    dsimp only [Option.getD_some]
    cases source : getIfExists nodes page.sourceUrl with
    | none =>
      -- without a source nothing is added
      simp [linkBetween, source]
    | some source' =>
      dsimp only
      congr 1
      funext g link
      by_cases same : page.sourceUrl = link
      · cases getIfExists nodes link <;> simp [linkBetween, same]
      · cases dest : getIfExists nodes link <;> simp [linkBetween, same, source, dest]

theorem addTableLink_eq (g : Graph nodes.length) (links : List LinkToNode) :
    links.foldl (addTableLink nodes) g = addLinks g (tableLinks nodes links) := by
  rw [addLinks, tableLinks, List.foldl_filterMap]
  congr 1
  funext g link
  by_cases same : link.sourceUrl = link.destUrl
  · simp [addTableLink, linkBetween, same]
  · cases source : getIfExists nodes link.sourceUrl <;> cases dest :
      getIfExists nodes link.destUrl <;>
      simp [addTableLink, linkBetween, same, source, dest]

theorem buildGraph_eq (nodes : List (Node Rank)) (nodesOfIntrest : List (RootRow Rank))
    (linksToNode : List LinkToNode) : buildGraph nodes nodesOfIntrest linksToNode =
      addLinks Graph.empty (nodesOfIntrest.flatMap (rowLinks nodes) ++
        tableLinks nodes linksToNode) := by
  have rows : ∀ g : Graph nodes.length, nodesOfIntrest.foldl (addRowLinks nodes) g =
      addLinks g (nodesOfIntrest.flatMap (rowLinks nodes)) := by
    intro g
    rw [addLinks, List.foldl_flatMap]
    congr 1
    funext g page
    exact addRowLinks_eq g page
  rw [buildGraph, rows, addTableLink_eq, addLinks, addLinks, addLinks, List.foldl_append]

/-- A link stands in both lists as often as it was added. -/
theorem count_addLinks {n : Nat} (g : Graph n) (links : List (Fin n × Fin n)) (u v : Fin n) :
    ((addLinks g links).outNeighbous u).count v = (g.outNeighbous u).count v + links.count (u, v) ∧
      ((addLinks g links).inNeighbous v).count u =
        (g.inNeighbous v).count u + links.count (u, v) := by
  induction links generalizing g with
  | nil => exact ⟨rfl, rfl⟩
  | cons link links ih =>
    obtain ⟨source, dest⟩ := link
    obtain ⟨outward, inward⟩ := ih (g.addLink source dest)
    rw [addLinks, List.foldl_cons, ← addLinks, outward, inward, List.count_cons]
    simp only [Graph.addLink]
    -- a list grows only at its own node, and by one if the other node is meant
    constructor
    · by_cases here : u = source
      · subst here
        rw [Function.update_self, List.count_append, List.count_singleton]
        by_cases there : dest = v <;> simp [there]
        omega
      · rw [Function.update_of_ne here]
        simp [Ne.symm here]
    · by_cases there : v = dest
      · subst there
        rw [Function.update_self, List.count_append, List.count_singleton]
        by_cases here : source = u <;> simp [here]
        omega
      · rw [Function.update_of_ne there]
        simp [Ne.symm there]

/-- The graph of a search satisfies what the ranking takes for granted. -/
theorem buildGraph_consistent (nodes : List (Node Rank)) (nodesOfIntrest : List (RootRow Rank))
    (linksToNode : List LinkToNode) : (buildGraph nodes nodesOfIntrest linksToNode).Consistent := by
  intro v u
  rw [buildGraph_eq, (count_addLinks Graph.empty _ u v).1, (count_addLinks Graph.empty _ u v).2]
  rfl

end Links

/-! ### How often a link is counted -/

section Counts

variable {Rank : Type} {nodes : List (Node Rank)} {u v : Fin nodes.length}

def nodeUrl (nodes : List (Node Rank)) (u : Fin nodes.length) : Str := nodes[u].url

/-- No two nodes have the same URL. -/
def Distinct (nodes : List (Node Rank)) : Prop := (nodes.map (·.url)).Nodup

theorem addNode_distinct [Zero Rank] [DecidableEq Rank] (distinct : Distinct nodes)
    (sourceUrl : Str) (rank : Rank) : Distinct (addNode nodes sourceUrl rank) := by
  rw [addNode]
  split
  · exact distinct
  next absent =>
    have fresh : sourceUrl ∉ nodes.map (·.url) := by
      intro member
      obtain ⟨node, inside, same⟩ := List.mem_map.mp member
      exact absent (List.any_eq_true.mpr ⟨node, inside, beq_iff_eq.mpr same⟩)
    rw [Distinct, List.map_append, List.map_singleton, ← List.concat_eq_append]
    exact List.Nodup.concat fresh distinct

theorem buildNodes_distinct [Zero Rank] [DecidableEq Rank] (nodesOfIntrest : List (RootRow Rank))
    (linksToNode : List LinkToNode) : Distinct (buildNodes nodesOfIntrest linksToNode) := by
  have added : ∀ {α : Type} (rows : List α) (url : α → Str) (rank : α → Rank)
      (nodes : List (Node Rank)),
      Distinct nodes → Distinct
        (rows.foldl (fun nodes row => addNode nodes (url row) (rank row)) nodes) := by
    intro α rows url rank
    induction rows with
    | nil => exact fun _ distinct => distinct
    | cons row rows ih => exact fun nodes distinct => ih _ (addNode_distinct distinct _ _)
  exact added _ _ _ _ (added _ _ _ _ List.nodup_nil)

theorem getIfExists_iff (distinct : Distinct nodes) {name : Str} :
    getIfExists nodes name = some u ↔ nodeUrl nodes u = name := by
  rw [getIfExists, List.findFinIdx?_eq_some_iff, beq_iff_eq]
  refine and_iff_left_of_imp fun found j earlier again => ?_
  -- the same URL does not come earlier
  have same : nodes[j].url = nodes[u].url := (beq_iff_eq.mp again).trans found.symm
  have equal : nodes[j] = nodes[u] := List.inj_on_of_nodup_map distinct
    (List.getElem_mem j.isLt) (List.getElem_mem u.isLt) same
  have unique : j.val = u.val := (List.Nodup.getElem_inj_iff distinct.of_map).mp equal
  exact absurd (Fin.ext unique) (Fin.ne_of_lt earlier)

theorem linkBetween_iff (distinct : Distinct nodes) {sourceUrl destUrl : Str} :
    linkBetween nodes sourceUrl destUrl = some (u, v) ↔
      sourceUrl ≠ destUrl ∧ nodeUrl nodes u = sourceUrl ∧ nodeUrl nodes v = destUrl := by
  rw [linkBetween, ← getIfExists_iff distinct, ← getIfExists_iff distinct]
  split
  next same => simp [same]
  next other =>
    simp [other, Option.bind_eq_some_iff]

/-- The links of a row count as often as they stand in its list. -/
theorem count_rowLinks (distinct : Distinct nodes) (other : nodeUrl nodes u ≠ nodeUrl nodes v)
    (page : RootRow Rank) : (rowLinks nodes page).count (u, v) =
      if page.sourceUrl = nodeUrl nodes u then (page.crossSiteLinks.getD []).count (nodeUrl nodes v)
        else 0 := by
  rw [rowLinks, List.count_filterMap]
  split
  next source =>
    refine List.countP_congr fun link _ => ?_
    rw [beq_iff_eq, beq_iff_eq, linkBetween_iff distinct]
    constructor
    · exact fun both => both.2.2.symm
    · rintro rfl
      exact ⟨source ▸ other, source.symm, rfl⟩
  next elsewhere =>
    refine List.countP_eq_zero.mpr fun link _ counted => ?_
    rw [beq_iff_eq, linkBetween_iff distinct] at counted
    exact elsewhere counted.2.1.symm

theorem count_tableLinks (distinct : Distinct nodes) (other : nodeUrl nodes u ≠ nodeUrl nodes v)
    (links : List LinkToNode) :
    (tableLinks nodes links).count (u, v) = links.count ⟨nodeUrl nodes v, nodeUrl nodes u⟩ := by
  rw [tableLinks, List.count_filterMap]
  refine List.countP_congr fun link _ => ?_
  rw [beq_iff_eq, beq_iff_eq, linkBetween_iff distinct]
  constructor
  · rintro ⟨_, source, dest⟩
    rw [source, dest]
  · rintro rfl
    exact ⟨other, rfl, rfl⟩

variable [LinearOrder Rank] {search : TextSearch Rank} {pages : Table Str PageRow}
  {links : Multiset LinkRow}
  {nodesOfIntrest : List (RootRow Rank)} {linksToNode : List LinkToNode}

/-- The first query counts the links of the root pages. -/
theorem count_answerRoot (root : AnswersRoot search pages nodesOfIntrest)
    (stored : LinksStored pages links) (distinct : Distinct nodes)
    (other : nodeUrl nodes u ≠ nodeUrl nodes v) :
    (nodesOfIntrest.flatMap (rowLinks nodes)).count (u, v) =
      if nodeUrl nodes u ∈ nodesOfIntrest.map (·.sourceUrl) ∧
          nodeUrl nodes v ∈ storedLinks pages (nodeUrl nodes u) then 1 else 0 := by
  -- a row gives a link as often as the text of the target is stored for its page
  have row : ∀ page ∈ nodesOfIntrest, (rowLinks nodes page).count (u, v) =
      if page.sourceUrl = nodeUrl nodes u then
        (storedLinks pages (nodeUrl nodes u)).count (nodeUrl nodes v) else 0 := by
    intro page member
    rw [count_rowLinks distinct other]
    refine ite_congr rfl (fun source => ?_) fun _ => rfl
    obtain ⟨found, lookup, _, list, _⟩ := root.selected page member
    rw [storedLinks, ← source, lookup, list]
    rfl
  have total : ∀ rows : List (RootRow Rank), (∀ page ∈ rows, page ∈ nodesOfIntrest) →
      (rows.flatMap (rowLinks nodes)).count (u, v) =
        (rows.map (·.sourceUrl)).count (nodeUrl nodes u) *
        (storedLinks pages (nodeUrl nodes u)).count (nodeUrl nodes v) := by
    intro rows inside
    induction rows with
    | nil => simp
    | cons page rows ih =>
      rw [List.forall_mem_cons] at inside
      rw [List.flatMap_cons, List.count_append, ih inside.2, row page inside.1, List.map_cons,
        List.count_cons]
      by_cases here : page.sourceUrl = nodeUrl nodes u
      · simp [here, Nat.add_mul, Nat.add_comm]
      · simp [here]
  -- rows and stored links are all different, so it is once at most
  rw [total nodesOfIntrest fun _ member =>
    member, List.Nodup.count root.distinct, (stored.distinct _).count]
  by_cases isRoot : nodeUrl nodes u ∈ nodesOfIntrest.map (·.sourceUrl) <;>
    by_cases linked : nodeUrl nodes v ∈ storedLinks pages (nodeUrl nodes u) <;>
      simp [isRoot, linked]

omit [LinearOrder Rank] in
/-- The second query counts the links to the pages that match. -/
theorem count_answerLinks (answer : AnswersLinks search pages links linksToNode)
    (stored : LinksStored pages links) (s d : Str) :
    linksToNode.count ⟨d, s⟩ = if matchesUrl search pages d = true ∧
      d ∈ storedLinks pages s then 1 else 0 := by
  rw [← Multiset.coe_count, answer, Multiset.count_map, Multiset.filter_filter]
  -- a row of the answer for each stored link, as the page matches
  by_cases isMatch : matchesUrl search pages d = true
  · have once := stored.once s d
    simp only [isMatch, true_and]
    rw [← once]
    congr 1
    refine Multiset.filter_congr fun link _ => ?_
    rw [LinkToNode.mk.injEq]
    constructor
    · rintro ⟨⟨rfl, rfl⟩, cross, _⟩
      exact ⟨cross, rfl, rfl⟩
    · rintro ⟨cross, rfl, rfl⟩
      exact ⟨⟨rfl, rfl⟩, cross, isMatch⟩
  · -- no row is about a page that does not match
    rw [if_neg fun both => isMatch both.1, Multiset.card_eq_zero, Multiset.filter_eq_nil]
    rintro link _ ⟨same, _, found⟩
    cases same
    exact isMatch found

/-- A link is counted once for a root page it comes from, and once more if it leads to a page
that matches. -/
theorem count_buildGraph (root : AnswersRoot search pages nodesOfIntrest)
    (answer : AnswersLinks search pages links linksToNode) (stored : LinksStored pages links)
    (distinct : Distinct nodes) (other : nodeUrl nodes u ≠ nodeUrl nodes v)
    (linked : nodeUrl nodes v ∈ storedLinks pages (nodeUrl nodes u)) :
    ((buildGraph nodes nodesOfIntrest linksToNode).outNeighbous u).count v =
      (if nodeUrl nodes u ∈ nodesOfIntrest.map (·.sourceUrl) then 1 else 0) +
        if matchesUrl search pages (nodeUrl nodes v) = true then 1 else 0 := by
  rw [buildGraph_eq, (count_addLinks Graph.empty _ u v).1, List.count_append,
    count_answerRoot root stored distinct other, count_tableLinks distinct other,
    count_answerLinks answer stored]
  simp [linked, Graph.empty]

/-- Every link between two pages of the graph of which one is a root page is counted once, in both
lists, exactly if no root page links to another page that matches. -/
theorem links_counted_once_iff [Zero Rank] (root : AnswersRoot search pages nodesOfIntrest)
    (answer : AnswersLinks search pages links linksToNode) (stored : LinksStored pages links) :
    let nodes := buildNodes nodesOfIntrest linksToNode
    let g := buildGraph nodes nodesOfIntrest linksToNode
    let rootUrls := nodesOfIntrest.map (·.sourceUrl)
    (∀ u v, u ≠ v → nodeUrl nodes v ∈ storedLinks pages (nodeUrl nodes u) →
        nodeUrl nodes u ∈ rootUrls ∨ nodeUrl nodes v ∈ rootUrls →
          (g.outNeighbous u).count v = 1 ∧ (g.inNeighbous v).count u = 1) ↔
      ∀ u v, u ≠ v → nodeUrl nodes v ∈ storedLinks pages (nodeUrl nodes u) →
        nodeUrl nodes u ∈ rootUrls → matchesUrl search pages (nodeUrl nodes v) = false := by
  intro nodes g rootUrls
  have distinct : Distinct nodes := buildNodes_distinct nodesOfIntrest linksToNode
  have other : ∀ u v : Fin nodes.length, u ≠ v → nodeUrl nodes u ≠ nodeUrl nodes v := by
    intro u v different same
    have found := (getIfExists_iff (u := u) distinct).mpr same
    rw [(getIfExists_iff (u := v) distinct).mpr rfl] at found
    exact different (Option.some.inj found).symm
  have root_matches : ∀ url ∈ rootUrls, matchesUrl search pages url = true := by
    intro url member
    obtain ⟨row, inside, rfl⟩ := List.mem_map.mp member
    obtain ⟨page, lookup, isMatch, _⟩ := root.selected row inside
    simp [matchesUrl, lookup, isMatch]
  refine forall₄_congr fun u v different linked => ?_
  have counted := count_buildGraph root answer stored distinct (other u v different) linked
  have transposed := buildGraph_consistent nodes nodesOfIntrest linksToNode v u
  rw [transposed, and_self, counted]
  -- one for a root page at the source, one for a page that matches at the target
  by_cases source : nodeUrl nodes u ∈ rootUrls
  · cases target : matchesUrl search pages (nodeUrl nodes v) <;> simp [source, rootUrls]
  · rw [if_neg source]
    refine iff_of_true (fun either => ?_) fun isRoot => absurd isRoot source
    simp [root_matches _ (either.resolve_left source)]

end Counts

/-! ### Two capsules -/

/-- One page with a link to another capsule, and the page there. -/
def twoCapsules : Table Str PageRow := fun url =>
  if url = lit "gemini://a/" then
    some {
      domainName := lit "a", port := 1965, firstSeenAt := 0
      crossSiteLinks := some [lit "gemini://b/"] }
  else if url = lit "gemini://b/" then
    some { domainName := lit "b", port := 1965, firstSeenAt := 0 }
  else none

def twoCapsulesLinks : Multiset LinkRow :=
  {⟨lit "gemini://a/", lit "a", 1965, lit "gemini://b/", true, lit "b", 1965⟩}

/-- A search for pages on some hosts. -/
def hostSearch (hosts : List Str) : TextSearch Nat :=
  ⟨fun page => hosts.contains page.domainName, fun _ => 1⟩

theorem storedLinks_twoCapsules (s : Str) :
    storedLinks twoCapsules s = if s = lit "gemini://a/" then [lit "gemini://b/"] else [] := by
  rw [storedLinks, twoCapsules]
  split
  · rfl
  · split <;> rfl

theorem twoCapsules_cases {url : Str} {page : PageRow} (stored : twoCapsules url = some page) :
    url = lit "gemini://a/" ∧ page.domainName = lit "a" ∨
      url = lit "gemini://b/" ∧ page.domainName = lit "b" := by
  simp only [twoCapsules] at stored
  split at stored
  next here =>
    cases stored
    exact .inl ⟨here, rfl⟩
  · split at stored
    next here =>
      cases stored
      exact .inr ⟨here, rfl⟩
    · cases stored

theorem twoCapsules_stored : LinksStored twoCapsules twoCapsulesLinks where
  once s d := by
    rw [storedLinks_twoCapsules, twoCapsulesLinks, Multiset.filter_singleton]
    by_cases source : s = lit "gemini://a/"
    · by_cases dest : d = lit "gemini://b/"
      · simp [source, dest]
      · simp [source, dest, Ne.symm dest]
    · simp [source, Ne.symm source]
  distinct s := by
    rw [storedLinks_twoCapsules]
    split <;> simp

theorem links_counted_once_iff_base :
    let search := hostSearch [lit "b"]
    let nodesOfIntrest : List (RootRow Nat) := [⟨lit "gemini://b/", none, 1⟩]
    let linksToNode : List LinkToNode := [⟨lit "gemini://b/", lit "gemini://a/"⟩]
    let nodes := buildNodes nodesOfIntrest linksToNode
    let g := buildGraph nodes nodesOfIntrest linksToNode
    let rootUrls := nodesOfIntrest.map (·.sourceUrl)
    (∀ u v, u ≠ v → nodeUrl nodes v ∈ storedLinks twoCapsules (nodeUrl nodes u) →
        nodeUrl nodes u ∈ rootUrls ∨ nodeUrl nodes v ∈ rootUrls →
          (g.outNeighbous u).count v = 1 ∧ (g.inNeighbous v).count u = 1) ↔
      ∀ u v, u ≠ v → nodeUrl nodes v ∈ storedLinks twoCapsules (nodeUrl nodes u) →
        nodeUrl nodes u ∈ rootUrls → matchesUrl search twoCapsules (nodeUrl nodes v) = false := by
  have answers : AnswersLinks (hostSearch [lit "b"]) twoCapsules twoCapsulesLinks
      [⟨lit "gemini://b/", lit "gemini://a/"⟩] := by decide
  refine links_counted_once_iff ⟨by decide, ?_, by decide, by decide, ?_⟩ answers twoCapsules_stored
  · intro row member
    rw [List.mem_singleton] at member
    subst member
    exact ⟨_, rfl, by decide, rfl, rfl⟩
  · intro url page stored isMatch absent
    rcases twoCapsules_cases stored with ⟨rfl, host⟩ | ⟨rfl, host⟩
    · simp only [hostSearch, host] at isMatch
      exact absurd isMatch (by decide)
    · exact absurd List.mem_cons_self absent

/-- Where both pages match, the link between them is counted twice. -/
theorem link_counted_twice :
    let search := hostSearch [lit "a", lit "b"]
    let nodesOfIntrest : List (RootRow Nat) :=
      [⟨lit "gemini://a/", some [lit "gemini://b/"], 1⟩, ⟨lit "gemini://b/", none, 1⟩]
    let linksToNode : List LinkToNode := [⟨lit "gemini://b/", lit "gemini://a/"⟩]
    let nodes := buildNodes nodesOfIntrest linksToNode
    let g := buildGraph nodes nodesOfIntrest linksToNode
    AnswersRoot search twoCapsules nodesOfIntrest ∧
      AnswersLinks search twoCapsules twoCapsulesLinks linksToNode ∧
      LinksStored twoCapsules twoCapsulesLinks ∧
      ∃ u v, u ≠ v ∧ nodeUrl nodes v ∈ storedLinks twoCapsules (nodeUrl nodes u) ∧
        nodeUrl nodes u ∈ nodesOfIntrest.map (·.sourceUrl) ∧
          (g.outNeighbous u).count v = 2 ∧ (g.inNeighbous v).count u = 2 := by
  refine ⟨⟨by decide, ?_, by decide, by decide, ?_⟩, by decide, twoCapsules_stored,
    ⟨0, by decide⟩, ⟨1, by decide⟩, by decide⟩
  · intro row member
    rcases List.mem_pair.mp member with rfl | rfl
    · exact ⟨_, rfl, by decide, rfl, rfl⟩
    · exact ⟨_, rfl, by decide, rfl, rfl⟩
  · intro url page stored _ absent
    rcases twoCapsules_cases stored with ⟨rfl, _⟩ | ⟨rfl, _⟩
    · exact absurd List.mem_cons_self absent
    · exact absurd (List.mem_cons_of_mem _ List.mem_cons_self) absent

end Network

end Tlgs
