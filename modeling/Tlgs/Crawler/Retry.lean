import Tlgs.Crawler.Store

/-!
# Interrupted calls

The hash of a document is stored before its search vectors and links are. When a later
statement fails, the next call for the page finds the hash of what it fetches and stores
nothing again.
-/
namespace Tlgs

open Bytes Interactive Interactive.Program

/-- `search_vector` of a page. -/
def World.searchVectorOf (w : World) (urlStr : Str) : Option Str :=
  (w.pages urlStr).bind PageRow.searchVector

variable (env : Env)

/-- The search vector for a document at `url`. -/
def newVector (url : Url) (doc : Document) : Str :=
  env.toTsvector (PageRow.indexedTitle (limitTitle doc.title) (indexFriendly env url) ++
    lit " " ++ doc.body)

/-- The first failure after the UPDATE of the content was that of `op`. -/
def InterruptedAt (log : Log) (op : Op) : Prop :=
  ∃ before event done x rest, log = before ++ event :: (done ++ ⟨op, .error x⟩ :: rest) ∧
    storesContent event = true ∧ Succeeded done

/-- Nothing that the failing operation and those after it would have stored is missing:
what the tables of `w` hold in its place is the same. -/
def NothingLost (url : Url) (w : World) (doc : Document) : Op → Prop
  | .updateIndex _ _ =>
    w.searchVectorOf url.str = some (newVector env url doc) ∧
      (linkUrls env url doc.links = [] ∨
        w.linksOf url.str = newLinks env url (linkUrls env url doc.links))
  | .shouldCrawl _ | .deleteLinks _ =>
    w.linksOf url.str = newLinks env url (linkUrls env url doc.links)
  | .insertLinks _ => newLinks env url (linkUrls env url doc.links) = 0
  | _ => True

variable {env} {fails : Op → Str → Prop} {url : Url} {w : World} {r after : Rec}

/-! ### Rows of one page -/

theorem StoredOrNew.hashes {row row' : PageRow} (origin : StoredOrNew url w row)
    (origin' : StoredOrNew url w row') : row.hashes = row'.hashes := by
  rcases origin with stored | ⟨absent, _, rfl⟩
  · rcases origin' with stored' | ⟨absent', _⟩
    · cases stored.symm.trans stored'
      rfl
    · cases stored.symm.trans absent'
  · rcases origin' with stored' | ⟨_, _, rfl⟩
    · cases absent.symm.trans stored'
    · rfl

theorem StoredOrNew.searchVector {row : PageRow} (origin : StoredOrNew url w row) :
    w.searchVectorOf url.str = row.searchVector := by
  simp only [World.searchVectorOf]
  rcases origin with stored | ⟨absent, _, rfl⟩
  · rw [stored]
    rfl
  · rw [absent]
    rfl

/-- The row belongs to the version of the page that another row belongs to. -/
def SameVersion (row row' : PageRow) : Prop :=
  row'.searchVector = row.searchVector ∧ row'.hashes = row.hashes

/-- The page is gone, or its row belongs to the same version. -/
def KeepsVersion (url : Url) (row : PageRow) (after : World) : Prop :=
  ∀ row', after.pages url.str = some row' → SameVersion row row'

/-- A failure that is handled leaves the links and the version of the page. -/
theorem crawlFailed_keeps {row : PageRow} {x : Str} {result : Except Str Bool}
    (stored : r.state.pages url.str = some row)
    (run : env.Run fails (crawlFailed url x) r result after) :
    after.state.linksOf url.str = r.state.linksOf url.str ∧ KeepsVersion url row after.state := by
  have within : Within (fun op => (∃ host, op = .countTimeout host) ∨
      (∃ status meta_, op = .updateFailed url.str status meta_) ∨ op = .deleteStale url.str)
      (fun _ => True) (crawlFailed url x) :=
    within_crawlFailed (fun status meta_ => .inr (.inl ⟨status, meta_, rfl⟩)) (.inr (.inr rfl))
      (fun host => .inl ⟨host, rfl⟩) x
  refine (wp_iff_runs.mp (wp_of_within (fun s => s.state.linksOf url.str = r.state.linksOf url.str ∧
    KeepsVersion url row s.state) (fun _ _ _ _ _ => trivial) ?_ within ⟨rfl, ?_⟩)
      result after run).1
  · -- one operation of the handler; one that fails changes nothing
    rintro s op (x | a) next allowed ⟨links, kept⟩ taken
    · obtain ⟨pages, links', _⟩ := step_error taken
      simp only [KeepsVersion, World.linksOf]
      rw [pages, links']
      exact ⟨links, kept⟩
    · obtain ⟨later, _, _, effect, _⟩ := step_ok taken
      rw [effect]
      rcases allowed with ⟨host, rfl⟩ | ⟨status, meta_, rfl⟩ | rfl
      · exact ⟨links, kept⟩
      · -- only the status of the row changes
        refine ⟨links, fun row' found => ?_⟩
        obtain ⟨old, before, rfl⟩ :=
          Option.map_eq_some_iff.mp ((Table.update_self _).symm.trans found)
        exact kept old before
      · -- the row stays or is gone
        refine ⟨links, fun row' found => kept row' ?_⟩
        exact (Option.filter_eq_some_iff.mp ((Table.deleteIf_self _).symm.trans found)).1
  · intro row' found
    cases stored.symm.trans found
    exact ⟨rfl, rfl⟩

/-! ### Calls without a failure -/

section Succeeds

variable {crawlUrl : Url} {status : Int} {resp : Response} {doc : Document} {row : PageRow}
  {result : Except Str Bool} (processes : Processes url w crawlUrl status resp row r)
  (document : DocumentOf env url status resp doc)
  (run : env.Run fails ((indexResponse env url row.hashes status resp).tryCatch (crawlFailed url))
    r result after) (succeeded : Succeeded after.log)

include processes document run succeeded

/-- A call that stores the document leaves its search vector, and its links unless it has
none. -/
theorem leaves_of_stores (dumped : Dumped env (pageContent env url status resp doc))
    (stores : indexResponse env url row.hashes status resp = storeContent env url status resp doc) :
    after.state.linksOf url.str =
        (if linkUrls env url doc.links = [] then w.linksOf url.str
          else newLinks env url (linkUrls env url doc.links)) ∧
      after.state.searchVectorOf url.str = some (newVector env url doc) := by
  obtain ⟨t, before, old, links, row', page, _, rfl⟩ :=
    stored_of_run processes run succeeded document dumped stores
  refine ⟨links.trans ?_, ?_⟩
  · rw [old]
  · simp only [World.searchVectorOf]
    rw [page]
    rfl

/-- A call that finds the hashes of the document leaves everything. -/
theorem leaves_of_known (off : env.forceReindex = false)
    (indexed : row.indexedContentHash = env.xxHash64 doc.body)
    (raw : row.rawContentHash = env.xxHash64 resp.body) :
    after.state.linksOf url.str = w.linksOf url.str ∧
      after.state.searchVectorOf url.str = row.searchVector := by
  obtain ⟨mime, known⟩ : ∃ mime, indexResponse env url row.hashes status resp =
      storeUnchanged url status resp mime := indexResponse_known document off indexed raw
  obtain ⟨later, effect⟩ := unchanged_of_run run succeeded known
  rw [effect]
  refine ⟨?_, ?_⟩
  · rw [World.linksOf, World.linksOf, ← processes.links]
    rfl
  · change ((r.state.pages.update url.str _) url.str).bind PageRow.searchVector = _
    rw [Table.update_self, processes.stored]
    rfl

end Succeeds

/-! ### The interrupted call -/

theorem contentStored_of_interrupted {log : Log} {op : Op} (interrupted : InterruptedAt log op) :
    ContentStored log := by
  obtain ⟨before, event, done, x, rest, rfl, stores, _⟩ := interrupted
  exact ⟨event, List.mem_append_right _ List.mem_cons_self, stores⟩

/-- Whether some operation after the UPDATE of the content failed. -/
def failsAfterContent : Log → Bool
  | [] => false
  | event :: log => (storesContent event && !decide (Succeeded log)) || failsAfterContent log

theorem exists_interruptedAt {log : Log} (failed : failsAfterContent log = true) :
    ∃ op, InterruptedAt log op := by
  induction log with
  | nil => cases failed
  | cons event log ih =>
    rw [failsAfterContent, Bool.or_eq_true, Bool.and_eq_true] at failed
    rcases failed with ⟨stores, failed⟩ | failed
    · obtain ⟨done, op, x, rest, rfl, succeeded⟩ :=
        exists_first_failure (fun all => by simp [all] at failed : ¬Succeeded log)
      exact ⟨op, [], event, done, x, rest, rfl, stores, succeeded⟩
    · obtain ⟨op, before, event', done, x, rest, rfl, stores, succeeded⟩ := ih failed
      exact ⟨op, event :: before, event', done, x, rest, rfl, stores, succeeded⟩

/-- There is only one UPDATE of the content that the failure can follow. -/
theorem failure_after_content {log events : Log} {stored : Event Op Op.Answer Str} {op : Op}
    (absent : ¬ContentStored log) (stores : storesContent stored = true)
    (others : ∀ event ∈ events, storesContent event = false)
    (interrupted : InterruptedAt (log ++ [stored] ++ events) op) :
    ∃ done x rest, events = done ++ ⟨op, .error x⟩ :: rest ∧ Succeeded done := by
  obtain ⟨before, event, done, x, rest, same, stores', succeeded⟩ := interrupted
  rw [List.append_assoc, List.singleton_append] at same
  have front : ∀ event ∈ log, storesContent event = false := fun event member =>
    Bool.eq_false_iff.mpr fun stores => absent ⟨event, member, stores⟩
  -- counted on both sides, the UPDATE occurs once, so nothing before it is another one
  have once := congrArg (List.countP storesContent) same
  rw [List.countP_append, List.countP_append, List.countP_cons_of_pos stores,
    List.countP_cons_of_pos stores', List.countP_eq_zero.mpr (by simpa using front),
    List.countP_eq_zero.mpr (by simpa using others)] at once
  have front' : ∀ event ∈ before, storesContent event = false := by
    have none : List.countP storesContent before = 0 := by omega
    simpa using List.countP_eq_zero.mp none
  obtain ⟨_, _, rfl⟩ := append_cons_unique front
    front' (by simp [stores]) (by simp [stores']) same
  exact ⟨done, x, rest, rfl, succeeded⟩

section Interrupted

variable {urlStr : Str} {result : Except Str Bool} {first : Rec} {op : Op}
  (run : env.Run fails (crawlPage env urlStr) ⟨w, []⟩ result first)
  (interrupted : InterruptedAt first.log op)

include run interrupted

/-- The document of an interrupted call is stored as far as the failing operation says,
and the failure is handled. -/
theorem interrupted_of_run :
    (Url.ofString (env.uninitUrl urlStr) urlStr).str = urlStr ∧
    ∃ crawlUrl status resp doc row r r' t middle x,
      StoringCall env fails (Url.ofString (env.uninitUrl urlStr) urlStr) w crawlUrl
        status resp doc row
        r r' result first ∧
      Interrupted env (Url.ofString (env.uninitUrl urlStr) urlStr)
        (linkUrls env (Url.ofString (env.uninitUrl urlStr) urlStr) doc.links)
        (row.setContent t (pageContent env (Url.ofString (env.uninitUrl urlStr) urlStr)
          status resp doc))
        r'.state middle.state op ∧
      env.Run fails (crawlFailed (Url.ofString (env.uninitUrl urlStr) urlStr) x) middle
        result first := by
  obtain ⟨_, same, crawlUrl, status, resp, doc, row, r, r', storing⟩ :=
    crawlPage_stores run (contentStored_of_interrupted interrupted)
  obtain ⟨t, page⟩ := storing.content.stored
  obtain ⟨events, log, others⟩ := storing.ends.log
  -- the operation that failed came after the content was stored
  have whole := interrupted
  rw [log, storing.content.log] at whole
  obtain ⟨done, x, rest, rfl, succeeded⟩ := failure_after_content
    (not_contentStored_of_fetched storing.processes.fetched) rfl others whole
  obtain ⟨x, middle, left, handled⟩ := storing.ends.interrupted ⟨rfl, rfl⟩ page succeeded log
  exact ⟨same, crawlUrl, status, resp, doc, row, r, r', t, middle, x, storing, left, handled⟩

end Interrupted

/-! ### The next call -/

/-- Two calls leave a page the same links and the same search vector. -/
def SameResult (urlStr : Str) (left right : World) : Prop :=
  left.linksOf urlStr = right.linksOf urlStr ∧
    left.searchVectorOf urlStr = right.searchVectorOf urlStr

section Left

variable {status : Int} {resp : Response} {doc : Document} {row : PageRow} {t : Time}
  {stored middle : World} {op : Op}
  (left : Interrupted env url (linkUrls env url doc.links)
    (row.setContent t (pageContent env url status resp doc)) stored middle op)

include left

/-- The row that an interrupted call leaves has the hashes of the new document. -/
theorem row_of_interrupted :
    ∃ kept, middle.pages url.str = some kept ∧
      kept.hashes = ⟨env.xxHash64 doc.body, env.xxHash64 resp.body⟩ := by
  -- in each case the content was stored before the statement failed
  cases op with
  | updateIndex u index => exact ⟨_, left.2, rfl⟩
  | shouldCrawl u =>
    obtain ⟨_, _, kept, page, _, rfl⟩ := left
    exact ⟨_, page, rfl⟩
  | deleteLinks u =>
    obtain ⟨_, _, kept, page, _, rfl⟩ := left
    exact ⟨_, page, rfl⟩
  | insertLinks rows =>
    obtain ⟨_, _, kept, page, _, rfl⟩ := left
    exact ⟨_, page, rfl⟩
  | insertPages pages =>
    obtain ⟨_, _, kept, page, _, rfl⟩ := left
    exact ⟨_, page, rfl⟩
  | _ => cases left

/-- Without links to store, only the UPDATE of the search vectors can fail. -/
theorem links_of_interrupted (empty : linkUrls env url doc.links = []) :
    middle.linksOf url.str = stored.linksOf url.str := by
  cases op with
  | updateIndex u index => exact left.1
  | shouldCrawl u => exact absurd empty left.1
  | deleteLinks u => exact absurd empty left.1
  | insertLinks rows => exact absurd empty left.1
  | insertPages pages => exact absurd empty left.1
  | _ => cases left

/-- What is left is what a whole call leaves when nothing is lost. -/
theorem interrupted_complete_iff (links : stored.linksOf url.str = w.linksOf url.str)
    (vector : w.searchVectorOf url.str = row.searchVector) :
    (middle.linksOf url.str =
          (if linkUrls env url doc.links = [] then w.linksOf url.str
            else newLinks env url (linkUrls env url doc.links)) ∧
        middle.searchVectorOf url.str = some (newVector env url doc)) ↔
      NothingLost env url w doc op := by
  have indexed : ∀ {kept}, middle.pages url.str = some kept →
      Indexed env url (row.setContent t (pageContent env url status resp doc)) kept →
      middle.searchVectorOf url.str = some (newVector env url doc) := by
    rintro kept page ⟨_, rfl⟩
    simp only [World.searchVectorOf]
    rw [page]
    rfl
  cases op with
  | updateIndex u index =>
    -- neither the search vectors nor the links were stored
    obtain ⟨old, page⟩ := left
    have unchanged : middle.searchVectorOf url.str = w.searchVectorOf url.str := by
      rw [vector, World.searchVectorOf, page]
      rfl
    simp only [NothingLost, old, links, unchanged]
    by_cases empty : linkUrls env url doc.links = []
    · simp [empty]
    · simp [empty, and_comm]
  | shouldCrawl u =>
    obtain ⟨some_links, old, kept, page, index⟩ := left
    simp [NothingLost, some_links, old, links, indexed page index]
  | deleteLinks u =>
    obtain ⟨some_links, old, kept, page, index⟩ := left
    simp [NothingLost, some_links, old, links, indexed page index]
  | insertLinks rows =>
    -- the old links were deleted
    obtain ⟨some_links, none, kept, page, index⟩ := left
    simp [NothingLost, some_links, none, indexed page index, eq_comm]
  | insertPages pages =>
    -- the links were stored; only pages to queue are missing
    obtain ⟨some_links, new, kept, page, index⟩ := left
    simp [NothingLost, some_links, new, indexed page index]
  | _ => cases left

end Left

/-- The next call that fetches the same response, and in which nothing fails, leaves the
links and the search vector that an uninterrupted call leaves, exactly when the row was
deleted in between or nothing is lost. -/
theorem retry_repairs_iff (off : env.forceReindex = false) (hashed : ∀ str, env.xxHash64 str ≠ [])
    {urlStr : Str} {result result' result'' : Except Str Bool} {first retry clean : Rec} {op : Op}
    (run : env.Run fails (crawlPage env urlStr) ⟨w, []⟩ result first)
    (interrupted : InterruptedAt first.log op) {w' : World}
    (between : w'.pages urlStr = first.state.pages urlStr ∧
      w'.linksOf urlStr = first.state.linksOf urlStr)
    (again : env.Run fails (crawlPage env urlStr) ⟨w', []⟩ result' retry)
    (retried : Succeeded retry.log)
    (uninterrupted : env.Run fails (crawlPage env urlStr) ⟨w, []⟩ result'' clean)
    (succeeded : Succeeded clean.log) {crawlUrl crawlUrl' crawlUrl'' : Url} {resp : Response}
    (fetched : LastRequest first.log crawlUrl resp)
    (refetched : LastRequest retry.log crawlUrl' resp)
    (fetched_clean : LastRequest clean.log crawlUrl'' resp) :
    ∃ status doc,
      FetchedDocument env (Url.ofString (env.uninitUrl urlStr) urlStr) first.log crawlUrl
        status resp doc ∧
      (SameResult urlStr retry.state clean.state ↔
        first.state.pages urlStr = none ∨
          NothingLost env (Url.ofString (env.uninitUrl urlStr) urlStr) w doc op) := by
  obtain ⟨same, lastUrl, status, resp', doc, row, r, r', t, middle, x, storing, left, handled⟩ :=
    interrupted_of_run run interrupted
  obtain ⟨rfl, rfl⟩ := fetched.unique storing.last
  refine ⟨status, doc, ⟨fetched, storing.processes.concrete, storing.document⟩, ?_⟩
  -- the retry and the uninterrupted call process the same response
  obtain ⟨_, row', r₂, processes', rest'⟩ :=
    processes_of_run again refetched storing.processes.concrete
  obtain ⟨_, row'', r₃, processes'', rest''⟩ :=
    processes_of_run uninterrupted fetched_clean storing.processes.concrete
  clear run again uninterrupted
  generalize Url.ofString (env.uninitUrl urlStr) urlStr = url at *
  subst same
  obtain ⟨kept, page, hashes⟩ := row_of_interrupted left
  obtain ⟨links, version⟩ := crawlFailed_keeps page handled
  have origin := storing.processes.origin
  -- the uninterrupted call finds the old hashes, as the interrupted one did
  obtain ⟨clean_links, clean_vector⟩ :=
    leaves_of_stores processes'' storing.document rest'' succeeded
    storing.content.dumped (by rw [processes''.origin.hashes origin]; exact storing.stores)
  simp only [SameResult]
  rw [clean_links, clean_vector]
  cases gone : first.state.pages url.str with
  | none =>
    -- the row is inserted again, without the hashes
    refine iff_of_true ?_ (.inl rfl)
    have absent : w'.pages url.str = none := by rw [between.1, gone]
    have changed : row'.hashes.rawContentHash ≠ env.xxHash64 resp.body := by
      rcases processes'.origin with stored | ⟨_, _, rfl⟩
      · cases absent.symm.trans stored
      · exact (hashed _).symm
    obtain ⟨again_links, again_vector⟩ := leaves_of_stores processes' storing.document rest' retried
      storing.content.dumped (indexResponse_new storing.document changed)
    refine ⟨?_, again_vector⟩
    rw [again_links]
    split
    next empty =>
      rw [between.2, links, links_of_interrupted left empty, storing.content.links]
    · rfl
  | some found =>
    -- the hashes of the document are found
    obtain ⟨vector, same_hashes⟩ := version found gone
    have stored : w'.pages url.str = some found := by rw [between.1, gone]
    have equal : row' = found := processes'.origin.eq_of_stored stored
    subst equal
    rw [hashes] at same_hashes
    obtain ⟨again_links, again_vector⟩ :=
      leaves_of_known processes' storing.document rest' retried off
      (congrArg Hashes.indexedContentHash same_hashes) (congrArg Hashes.rawContentHash same_hashes)
    have left_vector : middle.state.searchVectorOf url.str = kept.searchVector := by
      rw [World.searchVectorOf, page]
      rfl
    rw [again_links, again_vector, between.2, links, vector, ← left_vector,
      interrupted_complete_iff left storing.content.links origin.searchVector]
    simp

/-! ### A call that fails while it stores links -/

/-- Anything may fail. -/
def anything (_ : Op) (_ : Str) : Prop := True

/-- A call on `w` for a document of one link, where the operations of one kind fail. -/
def crawlLink (kind : Op → Bool) (w : World) : Rec :=
  ((Outside.failing (lit "=> /x x") kind).run Env.small (crawlPage Env.small (lit "gemini://h/"))
    ⟨w, []⟩).2

private theorem crawlLink_run (kind : Op → Bool) (w : World) :
    ∃ result, Env.small.Run anything (crawlPage Env.small (lit "gemini://h/")) ⟨w, []⟩ result
      (crawlLink kind w) :=
  ⟨_, Outside.run_of_ends (fun _ _ _ => trivial) rfl⟩

def storesLinks : Op → Bool
  | .insertLinks _ => true
  | _ => false

def storesPages : Op → Bool
  | .insertPages _ => true
  | _ => false

theorem retry_repairs_iff_pages :
    let first := crawlLink storesPages World.empty
    let retry := crawlLink (fun _ => false) first.state
    let clean := crawlLink (fun _ => false) World.empty
    ∃ op, InterruptedAt first.log op ∧ ∃ status doc,
      FetchedDocument Env.small (Url.ofString 0 (lit "gemini://h/")) first.log
        (Url.ofString 0 (lit "gemini://h/")) status
          ⟨lit "20", lit "text/gemini", lit "=> /x x"⟩ doc ∧
      (SameResult (lit "gemini://h/") retry.state clean.state ↔
        first.state.pages (lit "gemini://h/") = none ∨
          NothingLost Env.small (Url.ofString 0 (lit "gemini://h/")) World.empty doc op) := by
  intro first retry clean
  obtain ⟨op, interrupted⟩ := exists_interruptedAt (by decide : failsAfterContent first.log = true)
  obtain ⟨_, run⟩ := crawlLink_run storesPages World.empty
  obtain ⟨_, again⟩ := crawlLink_run (fun _ => false) first.state
  obtain ⟨_, uninterrupted⟩ := crawlLink_run (fun _ => false) World.empty
  have refetched : LastRequest retry.log (Url.ofString 0 (lit "gemini://h/"))
      ⟨lit "20", lit "text/gemini", lit "=> /x x"⟩ := by decide
  have fetched_clean : LastRequest clean.log (Url.ofString 0 (lit "gemini://h/"))
      ⟨lit "20", lit "text/gemini", lit "=> /x x"⟩ := by decide
  exact ⟨op, interrupted, retry_repairs_iff rfl
    (fun _ => List.cons_ne_nil _ _) run interrupted ⟨rfl, rfl⟩
    again (by decide) uninterrupted (by decide) (by decide) refetched fetched_clean⟩

/-- The rows of `links` that a failing INSERT did not store stay missing. -/
theorem lost_links_stay_lost :
    let first := crawlLink storesLinks World.empty
    let retry := crawlLink (fun _ => false) first.state
    let clean := crawlLink (fun _ => false) World.empty
    (∃ result, Env.small.Run anything (crawlPage Env.small (lit "gemini://h/"))
      ⟨World.empty, []⟩ result
      first) ∧ (∃ op, InterruptedAt first.log op) ∧
    (∃ result, Env.small.Run anything (crawlPage Env.small (lit "gemini://h/"))
      ⟨first.state, []⟩ result
      retry) ∧ Succeeded retry.log ∧
    (∃ result, Env.small.Run anything (crawlPage Env.small (lit "gemini://h/"))
      ⟨World.empty, []⟩ result
      clean) ∧ Succeeded clean.log ∧
    retry.state.linksOf (lit "gemini://h/") = 0 ∧
    (clean.state.linksOf (lit "gemini://h/")).card = 1 :=
  ⟨crawlLink_run _ _, exists_interruptedAt (by decide), crawlLink_run _ _,
    by decide, crawlLink_run _ _, by decide, by decide, by decide⟩

end Tlgs
