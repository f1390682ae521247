import Tlgs.Search.Dedup

/-!
# What the deduplication leaves

Each round of the deduplication makes one move on the map. Whether copies of a page stay side
by side, and whether a page is kept at all, is decided by these moves.
-/
namespace Tlgs

open Bytes Exchange

variable {Score : Type} [LinearOrder Score]

/-- The map before each round, with the move of the round. -/
def rounds (replaceAll : Str → Str → Str → Str) (token : Str) (order : HashOrder Score) :
    List (ScoredPage Score) → Nat → List (ScoredPage Score) →
      List (List (ScoredPage Score) × Move (ScoredPage Score))
  | _, _, [] => []
  | resultMap, round, node :: nodes =>
    (resultMap, outcome replaceAll token order resultMap round node) ::
      rounds replaceAll token order (deduplicateNode replaceAll token order resultMap round node)
        (round + 1) nodes

variable {replaceAll : Str → Str → Str → Str} {token : Str} {order : HashOrder Score}
  {sorting : ScoreSort Score}
  {resultMap nodes : List (ScoredPage Score)} {node stored : ScoredPage Score} {round : Nat}

theorem run_of_rounds (replaceAll : Str → Str → Str → Str) (token : Str) (order : HashOrder Score)
    (resultMap : List (ScoredPage Score)) (round : Nat) (nodes : List (ScoredPage Score)) :
    Run resultMap (rounds replaceAll token order resultMap round nodes)
      (deduplicateFrom replaceAll token order resultMap round nodes) := by
  induction nodes generalizing resultMap round with
  | nil => exact .done (List.Perm.refl _)
  | cons node nodes ih =>
    exact .move (deduplicateNode_perm replaceAll token order resultMap round node) (ih _ _)

/-- A sorting algorithm exists for any scores. -/
def scoreSort : ScoreSort Score where
  sort pages := pages.insertionSort fun a b => b.score ≤ a.score
  perm pages := List.perm_insertionSort _ pages
  descending pages := by
    have total : Std.Total fun a b : ScoredPage Score => b.score ≤ a.score :=
      ⟨fun a b => le_total b.score a.score⟩
    have trans : IsTrans (ScoredPage Score) fun a b => b.score ≤ a.score :=
      ⟨fun _ _ _ ab bc => bc.trans ab⟩
    exact List.pairwise_insertionSort _ pages

/-! ### Copies side by side -/

/-- Two pages that the first two conditions of the pass would merge. -/
def Clash (a b : ScoredPage Score) : Prop :=
  (a.size ≠ 0 ∧ b.size ≠ 0 ∧ a.contentHash = b.contentHash) ∧
    (pageHost a.url = pageHost b.url ∨ pagePath a.url = pagePath b.url)

omit [LinearOrder Score] in
theorem Clash.symm (a b : ScoredPage Score) (clash : Clash a b) : Clash b a :=
  ⟨⟨clash.1.2.1, clash.1.1, clash.1.2.2.symm⟩, clash.2.imp Eq.symm Eq.symm⟩

omit [LinearOrder Score] in
theorem merges_of_clash (clash : Clash node stored) :
    merges replaceAll token node stored = true := by
  rcases clash.2 with host | path
  · simp [merges, host]
  · simp [merges, path]

/-- A page that is added has met no page it would be merged with. -/
theorem not_clash_of_added {added other : ScoredPage Score}
    (move : outcome replaceAll token order resultMap round node = .add added)
    (member : other ∈ resultMap) :
    ¬Clash added other := by
  intro clash
  unfold outcome at move
  split at move
  · cases move
  · -- a page that is added met none that it clashes with
    split at move
    next empty =>
      cases move
      exact clash.1.1 empty
    · split at move
      next unmatched =>
        cases move
        have candidate : other ∈ candidates order resultMap round node :=
          mem_candidates.mpr ⟨member, clash.1.2.2.symm⟩
        have passed := List.find?_eq_none.mp unmatched other candidate
        rw [merges_of_clash clash] at passed
        exact passed rfl
      · split at move <;> cases move

theorem fresh_of_rounds (replaceAll : Str → Str → Str → Str) (token : Str)
    (order : HashOrder Score) (resultMap : List (ScoredPage Score)) (round : Nat)
    (nodes : List (ScoredPage Score)) :
    ∀ entry ∈ rounds replaceAll token order resultMap round nodes, ∀ added, entry.2 = .add added →
      ∀ other ∈ entry.1, ¬Clash added other := by
  induction nodes generalizing resultMap round with
  | nil => simp [rounds]
  | cons node nodes ih =>
    rw [rounds, List.forall_mem_cons]
    exact ⟨fun added move other member => not_clash_of_added move member, ih _ _⟩

/-- No two pages that are found have the same content and the same host or path exactly if,
wherever a node takes the place of its first match and has the host or path of another stored
page, a later round takes one of the two away again. -/
theorem pageSearch_complete_iff (replaceAll : Str → Str → Str → Str) (token : Str)
    (order : HashOrder Score) (sorting : ScoreSort Score) (nodes : List (ScoredPage Score)) :
    (pageSearch replaceAll token order sorting nodes).Pairwise (fun a b => ¬Clash a b) ↔
      Settled Clash (rounds replaceAll token order [] 0 nodes) := by
  have run := run_of_rounds replaceAll token order [] 0 nodes
  have symm : ∀ {a b : ScoredPage Score}, ¬Clash a b → ¬Clash b a :=
    fun apart clash => apart (clash.symm _ _)
  rw [pageSearch, (sorting.perm _).pairwise_iff symm,
    run.pairwise_iff Clash.symm (fresh_of_rounds replaceAll token order [] 0 nodes)]
  simp

/-- The third page has the host of the first and the path of the second. Whichever of the two it
meets, it takes the place of that one only. -/
theorem copies_side_by_side :
    let first : ScoredPage Nat := ⟨lit "gemini://a/p", [], 1, 7, 1, true⟩
    let second : ScoredPage Nat := ⟨lit "gemini://b/q", [], 1, 7, 2, true⟩
    let third : ScoredPage Nat := ⟨lit "gemini://a/q", [], 1, 7, 3, true⟩
    (pageSearch Bytes.replaceAll (lit "/token")
      ⟨fun _ pages => pages, fun _ pages => List.Perm.refl pages⟩ scoreSort
        [first, second, third] = [third, second] ∧ Clash third second) ∧
      pageSearch Bytes.replaceAll (lit "/token")
        ⟨fun _ pages => pages.reverse, fun _ pages => pages.reverse_perm⟩
        scoreSort [first, second, third] = [third, first] ∧ Clash third first := by
  refine ⟨⟨by decide, by decide, .inr (by decide)⟩, by decide, by decide, .inl (by decide)⟩

/-! ### Originals and mirrors -/

/-- The stored page at which the loop for a node is left, after the nodes before it. -/
def metFirst (replaceAll : Str → Str → Str → Str) (token : Str) (order : HashOrder Score)
    (seen : List (ScoredPage Score)) (node : ScoredPage Score) :
    Option (ScoredPage Score) :=
  firstMatch replaceAll token node
    (candidates order (deduplicateFrom replaceAll token order [] 0 seen) seen.length node)

/-- The page's URL ends in the host and path of the other one. -/
def EndsIn (page other : ScoredPage Score) : Prop :=
  pageHost other.url ++ pagePath other.url <:+ page.url

/-- The URLs are one up to the way a user's directory is written. -/
def Alias (replaceAll : Str → Str → Str → Str) (token : Str) (node stored : ScoredPage Score) :
    Prop :=
  popSlash (aliasUsers replaceAll token node.url) = aliasUsers replaceAll token stored.url

omit [LinearOrder Score] in
theorem merges_apart (host : pageHost node.url ≠ pageHost stored.url)
    (path : pagePath node.url ≠ pagePath stored.url) :
    merges replaceAll token node stored = true ↔ EndsIn stored node ∨
      Alias replaceAll token node stored := by
  simp [merges, host, path, EndsIn, Alias, endsWith, List.isSuffixOf_iff_suffix]

theorem deduplicateFrom_append (before after : List (ScoredPage Score)) :
    deduplicateFrom replaceAll token order resultMap round (before ++ after) =
      deduplicateFrom replaceAll token order
        (deduplicateFrom replaceAll token order resultMap round before)
        (round + before.length) after := by
  induction before generalizing resultMap round with
  | nil => rfl
  | cons node before ih =>
    rw [List.cons_append, deduplicateFrom, deduplicateFrom, ih, List.length_cons]
    congr 1
    omega

theorem mem_rounds {entry : List (ScoredPage Score) × Move (ScoredPage Score)} :
    entry ∈ rounds replaceAll token order resultMap round nodes ↔
      ∃ earlier node later, nodes = earlier ++ node :: later ∧
      entry = (deduplicateFrom replaceAll token order resultMap round earlier,
        outcome replaceAll token order
          (deduplicateFrom replaceAll token order resultMap round earlier) (round + earlier.length)
          node) := by
  induction nodes generalizing resultMap round with
  | nil => simp [rounds]
  | cons first nodes ih =>
    rw [rounds, List.mem_cons, ih]
    -- the round of a node is the one after those of the nodes in front of it
    constructor
    · rintro (rfl | ⟨earlier, node, later, rfl, same⟩)
      · exact ⟨[], first, nodes, rfl, rfl⟩
      · refine ⟨first :: earlier, node, later, rfl, ?_⟩
        rw [same, List.length_cons, deduplicateFrom, Nat.add_right_comm, Nat.add_assoc]
    · rintro ⟨earlier, node, later, split, same⟩
      cases earlier with
      | nil =>
        cases split
        exact .inl same
      | cons head earlier =>
        cases split
        refine .inr ⟨earlier, node, later, rfl, ?_⟩
        rw [same, List.length_cons, deduplicateFrom, Nat.add_right_comm, Nat.add_assoc]

theorem enters_outcome
    (enters : (outcome replaceAll token order resultMap round node).Enters stored) :
    node = stored := by
  unfold outcome at enters
  split at enters
  · cases enters
  · split at enters
    · exact enters
    · split at enters
      · exact enters
      · split at enters
        · exact enters
        · cases enters

/-- A root page with a size comes in unless its first match is of no lower score, or none that it
is merged with. -/
theorem outcome_enters_iff (root : node.isRoot = true) (size : node.size ≠ 0) :
    (outcome replaceAll token order resultMap round node).Enters node ↔
      ∀ stored, firstMatch replaceAll token node (candidates order resultMap round node) =
        some stored →
        merges replaceAll token node stored = true ∧ stored.score < node.score := by
  unfold outcome
  rw [if_neg (by simp [root]), if_neg size]
  cases firstMatch replaceAll token node (candidates order resultMap round node) with
  | none => simp [Move.Enters]
  | some stored =>
    dsimp only
    split
    next replaced => simp [Move.Enters, replaced]
    next kept =>
      refine iff_of_false id fun always => kept (always stored rfl)

theorem outcome_evicts_iff (root : node.isRoot = true) (size : node.size ≠ 0) :
    (outcome replaceAll token order resultMap round node).Evicts stored ↔
      firstMatch replaceAll token node (candidates order resultMap round node) = some stored ∧
        merges replaceAll token node stored = true ∧ stored.score < node.score := by
  unfold outcome
  rw [if_neg (by simp [root]), if_neg size]
  cases firstMatch replaceAll token node (candidates order resultMap round node) with
  | none => simp [Move.Evicts]
  | some first =>
    -- the first match decides, whether it is replaced or not
    dsimp only
    split
    next replaced =>
      simp only [Move.Evicts, Option.some.injEq]
      refine ⟨fun same => ⟨same, same ▸ replaced⟩, And.left⟩
    next kept =>
      refine iff_of_false id ?_
      rintro ⟨same, replaced⟩
      cases same
      exact kept replaced

theorem not_enters_of_not_mem (absent : node ∉ nodes) :
    ∀ entry ∈ rounds replaceAll token order resultMap round nodes, ¬entry.2.Enters node := by
  intro entry member enters
  obtain ⟨earlier, other, later, rfl, rfl⟩ := mem_rounds.mp member
  exact absent (enters_outcome enters ▸ List.mem_append_right _ List.mem_cons_self)

/-- What is stored is one of the nodes. -/
theorem deduplicateFrom_subset (replaceAll : Str → Str → Str → Str) (token : Str)
    (order : HashOrder Score) (nodes : List (ScoredPage Score)) :
    ∀ page ∈ deduplicateFrom replaceAll token order [] 0 nodes, page ∈ nodes := by
  intro page kept
  by_contra absent
  exact (run_of_rounds replaceAll token order [] 0 nodes).not_mem
    (not_enters_of_not_mem absent) List.not_mem_nil kept

/-- A page that shares its host and path with no other page is found exactly if the first stored
page it is merged with, if any, has a lower score, and no later page it meets first is merged
with it and has a higher one. -/
theorem mem_pageSearch_iff {before after : List (ScoredPage Score)} (sorting : ScoreSort Score)
    (listed : ∀ page ∈ before ++ node :: after, page.isRoot = true ∧ page.size ≠ 0)
    (once : node ∉ before ++ after) :
    node ∈ pageSearch replaceAll token order sorting (before ++ node :: after) ↔
      (∀ stored, metFirst replaceAll token order before node = some stored →
          merges replaceAll token node stored = true ∧ stored.score < node.score) ∧
        ∀ earlier page later, after = earlier ++ page :: later →
          metFirst replaceAll token order (before ++ node :: earlier) page = some node →
            merges replaceAll token page node = true → page.score ≤ node.score := by
  rw [List.mem_append, not_or] at once
  -- the map and the number of a round after the page's own
  have state : ∀ earlier, deduplicateFrom replaceAll token order
      (deduplicateNode replaceAll token order (deduplicateFrom replaceAll token order [] 0 before)
        before.length node)
        (before.length + 1) earlier = deduplicateFrom replaceAll token order [] 0
          (before ++ node :: earlier) := by
    intro earlier
    rw [deduplicateFrom_append, Nat.zero_add, deduplicateFrom]
  have number : ∀ earlier : List (ScoredPage Score),
      before.length + 1 + earlier.length = (before ++ node :: earlier).length := by
    intro earlier
    rw [List.length_append, List.length_cons]
    omega
  have absent : node ∉ deduplicateFrom replaceAll token order [] 0 before :=
    fun kept => once.1 (deduplicateFrom_subset replaceAll token order before node kept)
  have run := run_of_rounds replaceAll token order
    (deduplicateFrom replaceAll token order [] 0 before) before.length (node :: after)
  have own := listed node (List.mem_append_right _ List.mem_cons_self)
  rw [pageSearch, (sorting.perm _).mem_iff, deduplicateFrom_append, Nat.zero_add]
  rw [rounds] at run
  rw [run.mem_iff_of_new absent (not_enters_of_not_mem once.2), outcome_enters_iff own.1 own.2]
  refine and_congr Iff.rfl ?_
  constructor
  · intro stays earlier page later split first merging
    have round := stays _ (mem_rounds.mpr ⟨earlier, page, later, split, rfl⟩)
    have member : page ∈ before ++ node :: after := by simp [split]
    rw [outcome_evicts_iff (listed page member).1 (listed page member).2, state, number] at round
    exact not_lt.mp fun lower => round ⟨first, merging, lower⟩
  · intro stays entry round evicts
    obtain ⟨earlier, page, later, split, rfl⟩ := mem_rounds.mp round
    have member : page ∈ before ++ node :: after := by simp [split]
    rw [outcome_evicts_iff (listed page member).1 (listed page member).2, state, number] at evicts
    exact absurd evicts.2.2 (not_lt.mpr (stays earlier page later split evicts.1 evicts.2.1))

/-- A page whose host and path end the URL of one other page at most, and that shares neither with
any, is found exactly if the mirror or alias it meets first, if any, has a lower score, and no
later alias, or mirror in whose host and path its own URL ends, meets it first with a higher one. -/
theorem original_kept_iff (replaceAll : Str → Str → Str → Str) (token : Str)
    (order : HashOrder Score) (sorting : ScoreSort Score) {before after : List (ScoredPage Score)}
    {n m : ScoredPage Score}
    (listed : ∀ page ∈ before ++ n :: after, page.isRoot = true ∧ page.size ≠ 0)
    (apart : ∀ page ∈ before ++ after, pageHost page.url ≠ pageHost n.url ∧
      pagePath page.url ≠ pagePath n.url)
    (mirror : EndsIn m n)
    (unrelated : ∀ page ∈ before ++ after, page ≠ m → ¬EndsIn page n ∧ ¬EndsIn n page) :
    n ∈ pageSearch replaceAll token order sorting (before ++ n :: after) ↔
      (∀ stored, metFirst replaceAll token order before n = some stored →
          stored = m ∨ Alias replaceAll token n stored → stored.score < n.score) ∧
        ∀ earlier page later, after = earlier ++ page :: later →
          metFirst replaceAll token order (before ++ n :: earlier) page = some n →
            page = m ∧ EndsIn n m ∨ Alias replaceAll token page n → page.score ≤ n.score := by
  have once : n ∉ before ++ after := fun member => (apart n member).1 rfl
  rw [mem_pageSearch_iff sorting listed once]
  refine and_congr (forall₂_congr fun stored first => ?_)
    (forall₃_congr fun earlier page later => forall₂_congr fun split _ => imp_congr_left ?_)
  · -- what the page meets first is the mirror or an alias, and it is merged with both
    have member : stored ∈ before ++ after :=
      List.mem_append_left _
        (deduplicateFrom_subset replaceAll token order before stored (mem_of_firstMatch first).1)
    obtain ⟨host, path⟩ := apart stored member
    have merging : merges replaceAll token n stored = true ↔ EndsIn stored n ∨
        Alias replaceAll token n stored :=
      merges_apart (Ne.symm host) (Ne.symm path)
    have known : stored = m ∨ Alias replaceAll token n stored := by
      by_contra other
      rw [not_or] at other
      obtain ⟨not_ends, not_ends'⟩ := unrelated stored member other.1
      rcases matches_of_firstMatch first with merges | mirrors
      · exact (merging.mp merges).elim not_ends other.2
      · exact not_ends' (List.isSuffixOf_iff_suffix.mp mirrors)
    have merged : merges replaceAll token n stored = true :=
      merging.mpr (known.imp_left fun same : stored = m => same ▸ mirror)
    simp [known, merged]
  · have member : page ∈ before ++ after := by simp [split]
    obtain ⟨host, path⟩ := apart page member
    rw [merges_apart host path]
    refine or_congr_left ⟨fun ends => ?_, fun both => both.1 ▸ both.2⟩
    have same : page = m := by
      by_contra other
      exact (unrelated page member other).2 ends
    exact ⟨same, same ▸ ends⟩

theorem original_kept_iff_archive :
    let n : ScoredPage Nat := ⟨lit "gemini://h/p", [], 1, 7, 1, true⟩
    let m : ScoredPage Nat := ⟨lit "gemini://a/h/p", [], 1, 7, 2, true⟩
    let order : HashOrder Nat := ⟨fun _ pages => pages, fun _ pages => List.Perm.refl pages⟩
    n ∈ pageSearch Bytes.replaceAll (lit "/token") order scoreSort ([] ++ n :: [m]) ↔
      (∀ stored, metFirst Bytes.replaceAll (lit "/token") order [] n = some stored →
          stored = m ∨ Alias Bytes.replaceAll (lit "/token") n stored → stored.score < n.score) ∧
        ∀ earlier page later, [m] = earlier ++ page :: later →
          metFirst Bytes.replaceAll (lit "/token") order ([] ++ n :: earlier) page = some n →
            page = m ∧ EndsIn n m ∨ Alias Bytes.replaceAll (lit "/token") page n →
              page.score ≤ n.score := by
  intro n m order
  apply original_kept_iff
  · decide
  · decide
  · exact List.isSuffixOf_iff_suffix.mp (by decide)
  · intro page member other
    exact absurd (List.mem_singleton.mp member) other

/-- A mirror that comes first with a higher score hides the original. -/
theorem mirror_hides_original :
    let n : ScoredPage Nat := ⟨lit "gemini://h/p", [], 1, 7, 1, true⟩
    let m : ScoredPage Nat := ⟨lit "gemini://a/h/p", [], 1, 7, 2, true⟩
    (pageHost m.url ≠ pageHost n.url ∧ pagePath m.url ≠ pagePath n.url) ∧ EndsIn m n ∧
      pageSearch Bytes.replaceAll (lit "/token")
        ⟨fun _ pages => pages, fun _ pages => List.Perm.refl pages⟩ scoreSort [m, n] =
        [m] := by
  refine ⟨by decide, List.isSuffixOf_iff_suffix.mp (by decide), by decide⟩

end Tlgs
