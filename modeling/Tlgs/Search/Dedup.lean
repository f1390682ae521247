import Tlgs.Base.Exchange
import Tlgs.Base.Representatives
import Tlgs.Search.Filter
import Tlgs.Url.Canonical
import Mathlib.Data.List.Sort

/-!
# Deduplication

The end of `SearchController::pageSearch`: of the scored pages only root pages are kept,
pages with the same content are merged where their URLs look like copies of each other,
and what is left is sorted by score. The order in which the multimap enumerates equal keys
is not specified, and neither is the order of equal scores after `std::sort`.
-/
namespace Tlgs

open Bytes

/-- A node of the search, with its score and whether it is in the root set. -/
structure ScoredPage (Score : Type) where
  url : Str
  contentType : Str
  size : UInt64
  contentHash : UInt64
  score : Score
  isRoot : Bool
  deriving DecidableEq, Repr

/-- How the multimap enumerates the pages of one hash, in each round of the loop. -/
structure HashOrder (Score : Type) where
  enumerate : Nat → List (ScoredPage Score) → List (ScoredPage Score)
  perm : ∀ round pages, (enumerate round pages).Perm pages

/-- A sorting algorithm for `a.score > b.score`. -/
structure ScoreSort (Score : Type) [LE Score] where
  sort : List (ScoredPage Score) → List (ScoredPage Score)
  perm : ∀ pages, (sort pages).Perm pages
  descending : ∀ pages, (sort pages).Pairwise fun a b => b.score ≤ a.score

/-! ### Which pages are merged -/

/-- `withHost(to_lower(host()))` and `path()` of a page's URL. Only these two are used, and no
indeterminate field enters them. -/
def pageHost (url : Str) : Str := (Url.ofString 0 url).host.map tolower

def pagePath (url : Str) : Str := (Url.ofString 0 url).path

/-- The ways to write a user's directory are replaced by a random token. -/
def aliasUsers (replaceAll : Str → Str → Str → Str) (token url : Str) : Str :=
  replaceAll (replaceAll (replaceAll url (lit "/~") token) (lit "/users") token) (lit "/user") token

/-- `if(str.ends_with("/")) str.pop_back();` -/
def popSlash (str : Str) : Str := if endsWith str (lit "/") then str.dropLast else str

variable {Score : Type}

/-- One of the four conditions under which two pages with the same hash are merged. -/
def merges (replaceAll : Str → Str → Str → Str) (token : Str) (node stored : ScoredPage Score) :
    Bool :=
  pageHost node.url == pageHost stored.url || pagePath node.url == pagePath stored.url ||
    endsWith stored.url (pageHost node.url ++ pagePath node.url) ||
    popSlash (aliasUsers replaceAll token node.url) == aliasUsers replaceAll token stored.url

/-- Anti-spam/takeover protection: the node mirrors the stored page. -/
def mirrors (node stored : ScoredPage Score) : Bool :=
  endsWith node.url (pageHost stored.url ++ pagePath stored.url)

variable [LinearOrder Score]

/-- The loop over the stored pages with the hash of the node: these pages afterwards, or nothing
if the loop runs through. -/
def mergeInto (replaceAll : Str → Str → Str → Str) (token : Str) (node : ScoredPage Score) :
    List (ScoredPage Score) → Option (List (ScoredPage Score))
  | [] => none
  | stored :: rest =>
    if merges replaceAll token node stored then
      some ((if stored.score < node.score then node else stored) :: rest)
    else if mirrors node stored then some (stored :: rest)
    else (mergeInto replaceAll token node rest).map (stored :: ·)

/-- One round of the loop over the nodes. -/
def deduplicateNode (replaceAll : Str → Str → Str → Str) (token : Str) (order : HashOrder Score)
    (resultMap : List (ScoredPage Score)) (round : Nat) (node : ScoredPage Score) :
    List (ScoredPage Score) :=
  if node.isRoot = false then resultMap
  else
    let range := order.enumerate round
      (resultMap.filter fun stored => stored.contentHash = node.contentHash)
    if node.size = 0 ∨ range = [] then resultMap ++ [node]
    else
      match mergeInto replaceAll token node range with
      | none => resultMap ++ [node]
      | some range =>
        (resultMap.filter fun stored => stored.contentHash ≠ node.contentHash) ++ range

def deduplicateFrom (replaceAll : Str → Str → Str → Str) (token : Str) (order : HashOrder Score) :
    List (ScoredPage Score) → Nat → List (ScoredPage Score) → List (ScoredPage Score)
  | resultMap, _, [] => resultMap
  | resultMap, round, node :: nodes =>
    deduplicateFrom replaceAll token order
      (deduplicateNode replaceAll token order resultMap round node) (round + 1) nodes

/-- `pageSearch` from the scored nodes on. -/
def pageSearch (replaceAll : Str → Str → Str → Str) (token : Str) (order : HashOrder Score)
    (sorting : ScoreSort Score) (nodes : List (ScoredPage Score)) : List (ScoredPage Score) :=
  sorting.sort (deduplicateFrom replaceAll token order [] 0 nodes)

/-! ### One round -/

def SameContent (page other : ScoredPage Score) : Prop := page.contentHash = other.contentHash

/-- The page stands for another one: same content, and no lower score. -/
def Covers (page other : ScoredPage Score) : Prop :=
  SameContent page other ∧ other.score ≤ page.score

/-- The mirror rule: same content, and the other one's URL ends in the page's host and path. -/
def MirroredBy (page other : ScoredPage Score) : Prop :=
  SameContent page other ∧ pageHost page.url ++ pagePath page.url <:+ other.url

omit [LinearOrder Score] in
private theorem sameContent_trans (a b c : ScoredPage Score) (first : SameContent a b)
    (second : SameContent b c) : SameContent a c :=
  Eq.trans first second

private theorem covers_refl (page : ScoredPage Score) : Covers page page := ⟨rfl, le_refl _⟩

private theorem covers_trans (a b c : ScoredPage Score) (first : Covers a b) (second : Covers b c) :
    Covers a c :=
  ⟨sameContent_trans a b c first.1 second.1, second.2.trans first.2⟩

/-- The pages with the hash of the node, as a round enumerates them. -/
def candidates (order : HashOrder Score) (resultMap : List (ScoredPage Score)) (round : Nat)
    (node : ScoredPage Score) : List (ScoredPage Score) :=
  order.enumerate round (resultMap.filter fun stored => stored.contentHash = node.contentHash)

/-- The page at which the loop over the candidates is left. -/
def firstMatch (replaceAll : Str → Str → Str → Str) (token : Str) (node : ScoredPage Score)
    (range : List (ScoredPage Score)) :
    Option (ScoredPage Score) :=
  range.find? fun stored => merges replaceAll token node stored || mirrors node stored

/-- What a round does: the node is kept as well, or takes the place of its first match, or is
left out. -/
def outcome (replaceAll : Str → Str → Str → Str) (token : Str) (order : HashOrder Score)
    (resultMap : List (ScoredPage Score)) (round : Nat) (node : ScoredPage Score) :
    Exchange.Move (ScoredPage Score) :=
  if node.isRoot = false then .stay
  else if node.size = 0 then .add node
  else
    match firstMatch replaceAll token node (candidates order resultMap round node) with
    | none => .add node
    | some stored =>
      if merges replaceAll token node stored ∧
        stored.score < node.score then .swap node stored else .stay

variable {replaceAll : Str → Str → Str → Str} {token : Str} {order : HashOrder Score}
  {resultMap range : List (ScoredPage Score)}
  {node stored : ScoredPage Score} {round : Nat}

private theorem mergeInto_of_none (unmatched : firstMatch replaceAll token node range = none) :
    mergeInto replaceAll token node range = none := by
  induction range with
  | nil => rfl
  | cons stored rest ih =>
    simp only [firstMatch, List.find?_cons] at unmatched
    split at unmatched
    · cases unmatched
    next other =>
      simp only [Bool.or_eq_false_iff] at other
      simp [mergeInto, other, ih unmatched]

/-- The loop ends at the first match, which gives its place to a node of a higher score. -/
private theorem mergeInto_of_match (first : firstMatch replaceAll token node range = some stored) :
    ∃ range', mergeInto replaceAll token node range = some range' ∧
      range'.Perm (if merges replaceAll token node stored ∧
        stored.score < node.score then node :: range.erase stored
        else range) := by
  induction range with
  | nil => cases first
  | cons other rest ih =>
    simp only [firstMatch, List.find?_cons] at first
    split at first
    next found =>
      cases first
      rw [mergeInto, List.erase_cons_head]
      by_cases merging : merges replaceAll token node stored = true
      · rw [if_pos merging]
        refine ⟨_, rfl, ?_⟩
        by_cases lower : stored.score < node.score
        · rw [if_pos lower, if_pos ⟨merging, lower⟩]
        · rw [if_neg lower, if_neg fun both => lower both.2]
      · -- the node is left out, whatever its score
        have mirror : mirrors node stored = true := by simpa [merging] using found
        rw [if_neg merging, if_pos mirror, if_neg fun both => merging both.1]
        exact ⟨_, rfl, List.Perm.refl _⟩
    next passed =>
      obtain ⟨range', found, order⟩ := ih first
      have other_ne : other ≠ stored := by
        rintro rfl
        have matching := List.find?_some first
        simp_all
      simp only [Bool.or_eq_false_iff] at passed
      refine ⟨other :: range', by simp [mergeInto, passed, found], ?_⟩
      rw [List.erase_cons_tail (by simpa using other_ne)]
      split
      next replaced =>
        rw [if_pos replaced] at order
        exact (order.cons other).trans (List.Perm.swap node other _)
      next kept =>
        rw [if_neg kept] at order
        exact order.cons other

omit [LinearOrder Score] in
theorem mem_candidates : stored ∈ candidates order resultMap round node ↔
    stored ∈ resultMap ∧ stored.contentHash = node.contentHash := by
  rw [candidates, (order.perm _ _).mem_iff, List.mem_filter, decide_eq_true_iff]

omit [LinearOrder Score] in
theorem mem_of_firstMatch
    (first : firstMatch replaceAll token node (candidates order resultMap round node) =
      some stored) :
    stored ∈ resultMap ∧ stored.contentHash = node.contentHash :=
  mem_candidates.mp (List.mem_of_find?_eq_some first)

omit [LinearOrder Score] in
theorem matches_of_firstMatch (first : firstMatch replaceAll token node range = some stored) :
    merges replaceAll token node stored = true ∨ mirrors node stored = true := by
  simpa using List.find?_some first

omit [LinearOrder Score] in
/-- The pages of one hash and the others make up the map. -/
private theorem split_perm (order : HashOrder Score) (round : Nat) (hash : UInt64)
    (resultMap : List (ScoredPage Score)) :
    ((resultMap.filter fun stored => stored.contentHash ≠ hash) ++
      order.enumerate round (resultMap.filter fun stored => stored.contentHash = hash)).Perm
        resultMap := by
  refine (List.Perm.append_left _ (order.perm round _)).trans (List.perm_append_comm.trans ?_)
  simpa using List.filter_append_perm (fun stored => decide (stored.contentHash = hash)) resultMap

/-- A round makes the move that its outcome says. -/
theorem deduplicateNode_perm (replaceAll : Str → Str → Str → Str) (token : Str)
    (order : HashOrder Score) (resultMap : List (ScoredPage Score)) (round : Nat)
    (node : ScoredPage Score) :
    (deduplicateNode replaceAll token order resultMap round node).Perm
      ((outcome replaceAll token order resultMap round node).apply resultMap) := by
  have added : (resultMap ++ [node]).Perm (node :: resultMap) :=
    List.perm_append_singleton node resultMap
  unfold deduplicateNode outcome
  by_cases leaf : node.isRoot = false
  · rw [if_pos leaf, if_pos leaf]
    exact List.Perm.refl _
  rw [if_neg leaf, if_neg leaf]
  by_cases empty : node.size = 0
  · rw [if_pos empty, if_pos (.inl empty)]
    exact added
  rw [if_neg empty]
  dsimp only
  rw [← candidates]
  cases first : firstMatch replaceAll token node (candidates order resultMap round node) with
  | none =>
    rw [mergeInto_of_none first]
    split
    · exact added
    · exact added
  | some stored =>
    obtain ⟨range', left, order'⟩ := mergeInto_of_match first
    obtain ⟨member, hash⟩ := mem_of_firstMatch first
    have nonempty : candidates order resultMap round node ≠ [] := by
      intro nil
      rw [nil] at first
      cases first
    rw [left, if_neg (by simp [empty, nonempty])]
    have whole := split_perm order round node.contentHash resultMap
    rw [← candidates] at whole
    refine (order'.append_left _).trans ?_
    dsimp only
    split
    next replaced =>
      -- the first match is not among the pages with another hash
      have elsewhere : stored ∉ resultMap.filter fun stored =>
          stored.contentHash ≠ node.contentHash := by
        simp [hash]
      refine List.perm_middle.trans (List.Perm.cons node ?_)
      rw [← List.erase_append_right _ elsewhere]
      exact whole.erase stored
    next kept => exact whole

/-- A round for a root node is a step of the representatives. -/
private theorem step_of_root (root : node.isRoot = true) (round : Nat) :
    Representatives.Step Covers MirroredBy node resultMap
      (deduplicateNode replaceAll token order resultMap round node) := by
  have order' := deduplicateNode_perm replaceAll token order resultMap round node
  unfold outcome at order'
  rw [if_neg (by simp [root])] at order'
  split at order'
  · exact .added order'
  · split at order'
    · exact .added order'
    next stored first =>
      obtain ⟨member, hash⟩ := mem_of_firstMatch first
      split at order'
      next replaced =>
        -- the node takes the place of a page with the same hash
        exact .replaced (List.perm_cons_erase member) ⟨hash.symm, le_of_lt replaced.2⟩ order'
      next kept =>
        rcases matches_of_firstMatch first with merging | isMirror
        · have high : node.score ≤ stored.score := not_lt.mp fun lower => kept ⟨merging, lower⟩
          exact .covered member ⟨hash, high⟩ order'
        · have ends := List.isSuffixOf_iff_suffix.mp isMirror
          exact .excused member ⟨hash, ends⟩ order'

/-! ### The whole pass -/

def rootPages (nodes : List (ScoredPage Score)) : List (ScoredPage Score) :=
  nodes.filter (·.isRoot)

/-- The loop keeps representatives of the root nodes it has seen. -/
private theorem run_of_nodes {seen nodes : List (ScoredPage Score)} {round : Nat}
    (run : Representatives.Run Covers MirroredBy seen resultMap) :
    Representatives.Run Covers MirroredBy (seen ++ rootPages nodes)
      (deduplicateFrom replaceAll token order resultMap round nodes) := by
  induction nodes generalizing seen resultMap round with
  | nil =>
    rw [rootPages, List.filter_nil, List.append_nil]
    exact run
  | cons node nodes ih =>
    rw [deduplicateFrom]
    cases root : node.isRoot with
    | false =>
      -- a page that is no root is passed over
      have same : deduplicateNode replaceAll token order resultMap round node = resultMap :=
        if_pos root
      have skipped : rootPages (node :: nodes) = rootPages nodes :=
        List.filter_cons_of_neg (by simp [root])
      rw [same, skipped]
      exact ih run
    | true =>
      -- a root page is one step of the pass
      have kept : rootPages (node :: nodes) = [node] ++ rootPages nodes :=
        List.filter_cons_of_pos root
      rw [kept, ← List.append_assoc]
      exact ih (run.next (step_of_root root round))

theorem run_deduplicate (nodes : List (ScoredPage Score)) :
    Representatives.Run Covers MirroredBy (rootPages nodes)
      (deduplicateFrom replaceAll token order [] 0 nodes) :=
  run_of_nodes .start

theorem pageSearch_subperm (sorting : ScoreSort Score) (nodes : List (ScoredPage Score)) :
    (pageSearch replaceAll token order sorting nodes).Subperm (rootPages nodes) :=
  (sorting.perm _).subperm_right.mpr (run_deduplicate nodes).subperm

/-- No content is lost. -/
theorem pageSearch_same_content (sorting : ScoreSort Score) {nodes : List (ScoredPage Score)}
    {page : ScoredPage Score} (member : page ∈ rootPages nodes) :
    ∃ found ∈ pageSearch replaceAll token order sorting nodes, SameContent found page := by
  obtain ⟨found, kept, hash⟩ := (run_deduplicate nodes).same_kind covers_refl sameContent_trans
    (fun _ _ => And.left) (fun _ _ => And.left) member
  exact ⟨found, (sorting.perm _).mem_iff.mpr kept, hash⟩

/-- The pages that are found are root pages, none more often than it is in the list, in order of
their scores. No content is lost, and a root page that is missing is covered by a page that is
found or mirrors a root page before it. -/
theorem pageSearch_loses_no_content (replaceAll : Str → Str → Str → Str) (token : Str)
    (order : HashOrder Score) (sorting : ScoreSort Score) (nodes : List (ScoredPage Score)) :
    let output := pageSearch replaceAll token order sorting nodes
    output.Subperm (rootPages nodes) ∧ ((rootPages nodes).Nodup → output.Nodup) ∧
      output.Pairwise (fun a b => b.score ≤ a.score) ∧
      (∀ page ∈ rootPages nodes, ∃ found ∈ output, SameContent found page) ∧
      ∀ before page after, rootPages nodes = before ++ page :: after →
        (∃ found ∈ output, Covers found page) ∨ ∃ original ∈ before, MirroredBy original page := by
  intro output
  have own : output.Subperm (rootPages nodes) := pageSearch_subperm sorting nodes
  refine ⟨own, fun distinct => ?_, sorting.descending _, fun page =>
    pageSearch_same_content sorting, fun before page after place => ?_⟩
  · -- a permutation of a sublist
    obtain ⟨chosen, order, sublist⟩ := own
    exact order.nodup_iff.mp (distinct.sublist sublist)
  · rcases (run_deduplicate nodes).accounted covers_refl covers_trans place with
      ⟨found, kept, covers⟩ | mirrored
    · exact Or.inl ⟨found, (sorting.perm _).mem_iff.mpr kept, covers⟩
    · exact Or.inr mirrored

end Tlgs
