import Tlgs.Crawler.Fetched

/-!
# What storing a document leaves behind

Content, search vectors and links of a page are stored by separate statements. A run that
fails leaves the rows as they were before the statement that failed.
-/
namespace Tlgs

open Bytes Interactive Interactive.Program

/-- The rows of `links` that lead away from a page. -/
def World.linksOf (w : World) (urlStr : Str) : Multiset LinkRow :=
  w.links.filter fun row => row.url = urlStr

variable (env : Env)

/-- The rows that the INSERT for the links of a page adds for this page. -/
def newLinks (url : Url) (linkUrls : List Url) : Multiset LinkRow :=
  (↑((linkUrls.map (linkValues env url)).map env.readLink) : Multiset LinkRow).filter
    fun row => row.url = url.str

/-- The row with the search vectors for what it stores. -/
def Indexed (url : Url) (row row' : PageRow) : Prop :=
  ∃ t, row' = row.setIndex env.toTsvector t (indexFriendly env url)

/-- What the statements from the UPDATE of the search vectors on leave behind when they
all succeed. -/
def Stored (url : Url) (linkUrls : List Url) (row : PageRow) (w after : World) : Prop :=
  after.linksOf url.str = (if linkUrls = [] then w.linksOf url.str else newLinks env url linkUrls) ∧
    ∃ row', after.pages url.str = some row' ∧ Indexed env url row row'

/-- What they leave behind when `op` fails. -/
def Interrupted (url : Url) (linkUrls : List Url) (row : PageRow) (w after : World) : Op → Prop
  | .updateIndex _ _ =>
    after.linksOf url.str = w.linksOf url.str ∧ after.pages url.str = some row
  | .shouldCrawl _ | .deleteLinks _ =>
    linkUrls ≠ [] ∧ after.linksOf url.str = w.linksOf url.str ∧
      ∃ row', after.pages url.str = some row' ∧ Indexed env url row row'
  | .insertLinks _ =>
    linkUrls ≠ [] ∧ after.linksOf url.str = 0 ∧
      ∃ row', after.pages url.str = some row' ∧ Indexed env url row row'
  | .insertPages _ =>
    linkUrls ≠ [] ∧ after.linksOf url.str = newLinks env url linkUrls ∧
      ∃ row', after.pages url.str = some row' ∧ Indexed env url row row'
  | _ => False

variable {env} {fails : Op → Str → Prop} {url : Url} {linkUrls : List Url} {r after : Rec}

/-- The row that a call reads is the one that is there. -/
theorem StoredOrNew.eq_of_stored {w : World} {row row' : PageRow} (origin : StoredOrNew url w row)
    (stored : w.pages url.str = some row') : row = row' := by
  rcases origin with found | ⟨absent, _⟩
  · exact Option.some.inj (found.symm.trans stored)
  · cases absent.symm.trans stored

/-! ### Search vectors and links -/

/-- Asking whether to queue the links changes nothing. -/
theorem checkLinks_outcome (going : Succeeded r.log) :
    env.Wp fails (checkLinks env linkUrls) (fun result after =>
      after.state.pages = r.state.pages ∧ after.state.links = r.state.links ∧
        match result with
        | .ok _ => Succeeded after.log
        | .error _ => ∃ urlStr, FailsAt after.log (.shouldCrawl urlStr)) r := by
  induction linkUrls generalizing r with
  | nil => exact ⟨rfl, rfl, going⟩
  | cons linkUrl rest ih =>
    apply wp_perform_bind.mpr
    intro answer asked taken
    obtain ⟨pages, links⟩ := step_fetches (by trivial) taken
    cases answer with
    | error x => exact ⟨pages, links, _, failsAt_step going taken⟩
    | ok allowed =>
      refine wp_bind.mpr (wp_mono ?_ (ih (succeeded_step going taken)))
      rintro (x | queued) after ⟨pages', links', ended⟩
      · exact ⟨pages'.trans pages, links'.trans links, ended⟩
      · exact ⟨pages'.trans pages, links'.trans links, ended⟩

theorem linksOf_deleteLinks (w : World) (urlStr : Str) :
    (env.apply w (.deleteLinks urlStr) ()).linksOf urlStr = 0 := by
  apply Multiset.filter_eq_nil.mpr
  intro row member same
  exact (Multiset.mem_filter.mp member).2 same

theorem linksOf_insertLinks {w : World} (none : w.linksOf url.str = 0) :
    (env.apply w (.insertLinks (linkUrls.map (linkValues env url))) ()).linksOf url.str =
      newLinks env url linkUrls := by
  refine (Multiset.filter_add _ _ _).trans ?_
  change w.linksOf url.str + newLinks env url linkUrls = _
  rw [none, Multiset.zero_add]

section StoreLinks

variable {w : World} {row row' : PageRow} (some_links : linkUrls ≠ [])
  (old : r.state.linksOf url.str = w.linksOf url.str)
  (stored : r.state.pages url.str = some row') (indexed : Indexed env url row row')
  (going : Succeeded r.log)

include some_links old stored indexed going

/-- The links of a page are replaced as a whole, or the failing statement says how far
that came. -/
theorem storeLinks_outcome :
    env.Wp fails (storeLinks env url linkUrls) (fun result after =>
      match result with
      | .ok b => b = true ∧ Succeeded after.log ∧ Stored env url linkUrls row w after.state
      | .error _ =>
        ∃ op, FailsAt after.log op ∧ Interrupted env url linkUrls row w after.state op) r := by
  refine wp_bind.mpr (wp_mono ?_ (checkLinks_outcome going))
  rintro (x | queued) asked ⟨pages, links, ended⟩
  · -- a check failed: the old rows are still there
    obtain ⟨urlStr, failed⟩ := ended
    refine ⟨_, failed, some_links, ?_, row', by rw [pages, stored], indexed⟩
    rw [World.linksOf, links]
    exact old
  · have kept : asked.state.pages url.str = some row' := by rw [pages, stored]
    apply wp_perform_bind.mpr
    intro answer deleted taken
    cases answer with
    | error x =>
      obtain ⟨pages', links', _⟩ := step_error taken
      refine ⟨_, failsAt_step ended taken, some_links, ?_, row', by rw [pages', kept], indexed⟩
      rw [World.linksOf, links', links]
      exact old
    | ok _ =>
      obtain ⟨later, _, _, effect, _⟩ := step_ok taken
      have ended := succeeded_step ended taken
      have gone : deleted.state.linksOf url.str = 0 := by
        rw [effect]
        exact linksOf_deleteLinks _ _
      have kept : deleted.state.pages url.str = some row' := by
        rw [effect]
        exact kept
      apply wp_perform_bind.mpr
      intro answer inserted taken
      cases answer with
      | error x =>
        -- the old rows are gone and the new ones not there
        obtain ⟨pages', links', _⟩ := step_error taken
        refine ⟨_, failsAt_step ended taken, some_links, ?_, row', by rw [pages', kept], indexed⟩
        rw [World.linksOf, links']
        exact gone
      | ok _ =>
        obtain ⟨later, _, _, effect, _⟩ := step_ok taken
        have ended := succeeded_step ended taken
        have new : inserted.state.linksOf url.str = newLinks env url linkUrls := by
          rw [effect]
          exact linksOf_insertLinks (w := deleted.state.tick later) gone
        have kept : inserted.state.pages url.str = some row' := by
          rw [effect]
          exact kept
        rw [then_ok]
        split
        · -- no page to queue
          exact ⟨rfl, ended, new.trans (if_neg some_links).symm, row', kept, indexed⟩
        · apply wp_perform_bind.mpr
          intro answer after taken
          cases answer with
          | error x =>
            obtain ⟨pages', links', _⟩ := step_error taken
            refine ⟨_, failsAt_step ended taken, some_links, ?_, row', by
              rw [pages', kept], indexed⟩
            rw [World.linksOf, links']
            exact new
          | ok _ =>
            obtain ⟨later, _, _, effect, _⟩ := step_ok taken
            refine ⟨rfl, succeeded_step ended taken, ?_, row', ?_, indexed⟩
            · rw [if_neg some_links, effect]
              exact new
            · rw [effect]
              exact Table.insertAll_of_some kept

end StoreLinks

/-- Every link is internal or leads to another site. -/
theorem no_links_iff (url : Url) (linkUrls : List Url) :
    (internalLinks url linkUrls = [] ∧ crossSiteLinks url linkUrls = []) ↔ linkUrls = [] := by
  constructor
  · rintro ⟨internal, cross⟩
    rw [internalLinks, List.map_eq_nil_iff, List.filter_eq_nil_iff] at internal
    rw [crossSiteLinks, List.map_eq_nil_iff, List.filter_eq_nil_iff] at cross
    refine List.eq_nil_iff_forall_not_mem.mpr fun linkUrl member => cross linkUrl member ?_
    simpa using internal linkUrl member
  · rintro rfl
    exact ⟨rfl, rfl⟩

theorem storeIndex_outcome {content : PageContent} {row : PageRow}
    (lists : content.internalLinks = internalLinks url linkUrls ∧
      content.crossSiteLinks = crossSiteLinks url linkUrls)
    (stored : r.state.pages url.str = some row) (going : Succeeded r.log) :
    env.Wp fails (storeIndex env url content linkUrls) (fun result after =>
      match result with
      | .ok b => b = true ∧ Succeeded after.log ∧ Stored env url linkUrls row r.state after.state
      | .error _ => ∃ op, FailsAt after.log op ∧
          Interrupted env url linkUrls row r.state after.state op) r := by
  apply wp_perform_bind.mpr
  intro answer middle taken
  cases answer with
  | error x =>
    obtain ⟨pages, links, _⟩ := step_error taken
    refine ⟨_, failsAt_step going taken, ?_, by rw [pages, stored]⟩
    rw [World.linksOf, links]
    rfl
  | ok _ =>
    obtain ⟨later, _, _, effect, _⟩ := step_ok taken
    have kept : middle.state.pages url.str =
        some (row.setIndex env.toTsvector later (indexFriendly env url)) := by
      rw [effect]
      exact (Table.update_self _).trans (congrArg _ stored)
    have old : middle.state.linksOf url.str = r.state.linksOf url.str := by
      rw [effect]
      rfl
    have ended := succeeded_step going taken
    rw [then_ok, lists.1, lists.2]
    by_cases empty : linkUrls = []
    · -- the early return leaves the rows of `links` as they are
      rw [if_pos ((no_links_iff url linkUrls).mpr empty)]
      exact ⟨rfl, ended, old.trans (if_pos empty).symm, _, kept, later, rfl⟩
    · rw [if_neg (fun both => empty ((no_links_iff url linkUrls).mp both))]
      exact storeLinks_outcome empty old kept ⟨later, rfl⟩ ended

/-! ### The UPDATE of the content -/

def storesContent : Event Op Op.Answer Str → Bool
  | ⟨.updateContent _ _, .ok _⟩ => true
  | _ => false

/-- The UPDATE of the content took effect. -/
def ContentStored (log : Log) : Prop := ∃ event ∈ log, storesContent event = true

instance (log : Log) : Decidable (ContentStored log) :=
  inferInstanceAs (Decidable (∃ event ∈ log, storesContent event = true))

theorem storesContent_of_quiet {event : Event Op Op.Answer Str} (quiet : Quiet event) :
    storesContent event = false := by
  simp only [storesContent]
  split
  · cases quiet
  · rfl

theorem not_contentStored_of_quiet {log : Log} (quiet : QuietLog log) : ¬ContentStored log := by
  rintro ⟨event, member, stores⟩
  rw [storesContent_of_quiet (quiet event member)] at stores
  cases stores

theorem not_contentStored_append {log events : Log} (absent : ¬ContentStored log)
    (others : ∀ event ∈ events, storesContent event = false) : ¬ContentStored (log ++ events) := by
  rintro ⟨event, member, stores⟩
  rcases List.mem_append.mp member with before | later
  · exact absent ⟨event, before, stores⟩
  · rw [others event later] at stores
    cases stores

/-- The request that a response answers stores nothing. -/
theorem not_contentStored_of_fetched {log : Log} {crawlUrl : Url} {resp : Response}
    (fetched : FetchedFrom log crawlUrl resp) : ¬ContentStored log := by
  obtain ⟨before, quiet, rfl⟩ := fetched
  apply not_contentStored_append (not_contentStored_of_quiet quiet)
  intro event member
  cases List.mem_singleton.mp member
  rfl

/-- Both lists of links can be dumped as JSON. -/
def Dumped (env : Env) (content : PageContent) : Prop :=
  env.jsonError content.crossSiteLinks = none ∧ env.jsonError content.internalLinks = none

/-- The call has just stored the content of a document. -/
structure StoresContent (env : Env) (url : Url) (w : World) (status : Int) (resp : Response)
    (doc : Document) (row : PageRow) (r r' : Rec) : Prop where
  dumped : Dumped env (pageContent env url status resp doc)
  log : r'.log = r.log ++ [⟨.updateContent url.str (pageContent env url status resp doc), .ok ()⟩]
  links : r'.state.linksOf url.str = w.linksOf url.str
  stored : ∃ t, r'.state.pages url.str =
    some (row.setContent t (pageContent env url status resp doc))

/-- Storing a document fails before it takes effect, or goes on from there. -/
theorem storeContent_outcome (env : Env) (fails : Op → Str → Prop) {w : World} {row : PageRow}
    (status : Int) (resp : Response) (doc : Document) (absent : ¬ContentStored r.log)
    (links : r.state.links = w.links) (stored : r.state.pages url.str = some row) :
    env.Wp fails (storeContent env url status resp doc) (fun result after =>
      (¬ContentStored after.log ∧ (∃ x, result = .error x) ∧
        (Dumped env (pageContent env url status resp doc) → ¬Succeeded after.log)) ∨
      ∃ r', StoresContent env url w status resp doc row r r' ∧
        env.Run fails (storeIndex env url (pageContent env url status resp doc)
          (Tlgs.linkUrls env url doc.links)) r' result after) r := by
  refine wp_bind.mpr ?_
  simp only [dumpLinks]
  split
  next x failed =>
    -- the cross-site links cannot be dumped
    exact .inl ⟨absent, ⟨x, rfl⟩, fun dumped => by cases failed.symm.trans dumped.1⟩
  next cross =>
    split
    next x failed =>
      -- the internal links cannot be dumped
      exact .inl ⟨absent, ⟨x, rfl⟩, fun dumped => by cases failed.symm.trans dumped.2⟩
    next internal =>
      apply wp_perform_bind.mpr
      intro answer middle taken
      cases answer with
      | error x =>
        -- the statement fails
        rw [then_error, taken.2]
        refine .inl ⟨?_, ⟨x, rfl⟩, fun _ all => ?_⟩
        · apply not_contentStored_append absent
          intro event member
          cases List.mem_singleton.mp member
          rfl
        · exact not_succeeded_error (all _ (List.mem_append_right _ List.mem_cons_self))
      | ok _ =>
        -- the content is stored, and the links are still the old ones
        obtain ⟨later, _, _, effect, log⟩ := step_ok taken
        refine wp_iff_runs.mpr fun result after run =>
          .inr ⟨middle, ⟨⟨cross, internal⟩, log, ?_, later, ?_⟩, run⟩
        · rw [effect, World.linksOf, World.linksOf, ← links]
          rfl
        · rw [effect]
          exact (Table.update_self _).trans (congrArg _ stored)

/-- How a call ends that goes on from the UPDATE of the content. -/
def EndsWith (env : Env) (fails : Op → Str → Prop) (url : Url) (content : PageContent)
    (linkUrls : List Url) (r : Rec) (result : Except Str Bool) (after : Rec) : Prop :=
  (∃ b, result = .ok b ∧ env.Run fails (storeIndex env url content linkUrls) r (.ok b) after) ∨
  ∃ x middle, env.Run fails (storeIndex env url content linkUrls) r (.error x) middle ∧
    env.Run fails (crawlFailed url x) middle result after

/-- Content is stored only once. -/
theorem EndsWith.log {content : PageContent} {result : Except Str Bool}
    (ends : EndsWith env fails url content linkUrls r result after) :
    ∃ events, after.log = r.log ++ events ∧ ∀ event ∈ events, storesContent event = false := by
  have index : Within Op.quiet (fun _ => True) (storeIndex env url content linkUrls) := by
    refine within_mono (fun op relinks => ?_) (within_storeIndex url content linkUrls)
    cases op <;> trivial
  have calm : ∀ {events : Log}, (∀ event ∈ events, event.op.quiet) →
      ∀ event ∈ events, storesContent event = false :=
    fun quiet event member => storesContent_of_quiet (quiet_of_op (quiet event member))
  rcases ends with ⟨b, rfl, run⟩ | ⟨x, middle, run, handled⟩
  · obtain ⟨events, log, quiet⟩ := log_of_runs index run
    exact ⟨events, log, calm quiet⟩
  · -- the failure handler adds its own operations
    obtain ⟨events, log, quiet⟩ := log_of_runs index run
    obtain ⟨more, later, quiet'⟩ := log_of_runs (quiet_crawlFailed url x) handled
    refine ⟨events ++ more, by rw [later, log, List.append_assoc], fun event member => ?_⟩
    rcases List.mem_append.mp member with first | second
    · exact calm quiet event first
    · exact calm quiet' event second

/-- A call that starts from the tables of `w`, processes the response to its last request
and stores the document that it makes of it. -/
structure StoringCall (env : Env) (fails : Op → Str → Prop) (url : Url) (w : World) (crawlUrl : Url)
    (status : Int) (resp : Response) (doc : Document) (row : PageRow) (r r' : Rec)
    (result : Except Str Bool) (after : Rec) : Prop where
  processes : Processes url w crawlUrl status resp row r
  last : LastRequest after.log crawlUrl resp
  document : DocumentOf env url status resp doc
  stores : indexResponse env url row.hashes status resp = storeContent env url status resp doc
  content : StoresContent env url w status resp doc row r r'
  ends : EndsWith env fails url (pageContent env url status resp doc)
    (Tlgs.linkUrls env url doc.links) r'
    result after

/-- Storing a document and handling what it throws goes on from the UPDATE of the content,
unless something failed before. -/
theorem storing_of_run {w : World} {crawlUrl : Url} {status : Int} {resp : Response}
    {row : PageRow} {doc : Document} {result : Except Str Bool}
    (processes : Processes url w crawlUrl status resp row r)
    (document : DocumentOf env url status resp doc)
    (stores : indexResponse env url row.hashes status resp = storeContent env url status resp doc)
    (run : env.Run fails ((indexResponse env url row.hashes status resp).tryCatch (crawlFailed url))
      r result after) :
    (¬ContentStored after.log ∧
      (Dumped env (pageContent env url status resp doc) → ¬Succeeded after.log)) ∨
    ∃ r', StoringCall env fails url w crawlUrl status resp doc row r r' result after := by
  have last := processes.lastRequest run
  rw [stores] at run
  have outcome := wp_iff_runs.mp (storeContent_outcome env fails status resp doc
    (not_contentStored_of_fetched processes.fetched) processes.links processes.stored)
  rcases runs_tryCatch.mp run with ⟨b, rfl, body⟩ | ⟨x, middle, body, handled⟩
  · -- nothing was thrown, so the content is stored
    rcases outcome _ _ body with ⟨_, ⟨_, failed⟩, _⟩ | ⟨r', content, index⟩
    · cases failed
    · exact .inr ⟨r', processes, last, document, stores, content, .inl ⟨b, rfl, index⟩⟩
  · -- an exception before or after the content was stored
    rcases outcome _ _ body with ⟨nothing, _, failing⟩ | ⟨r', content, index⟩
    · obtain ⟨events, log, calm⟩ := log_of_runs (quiet_crawlFailed url x) handled
      rw [log]
      refine .inl ⟨not_contentStored_append nothing fun event member =>
        storesContent_of_quiet (quiet_of_op (calm event member)), fun dumped all => ?_⟩
      exact failing dumped fun event member => all event (List.mem_append_left _ member)
    · exact .inr ⟨r', processes, last, document, stores, content, .inr ⟨x, middle, index, handled⟩⟩

/-- A call that stored content got to it by way of the response to its last request. -/
theorem crawlPage_stores {w : World} {urlStr : Str} {result : Except Str Bool}
    (run : env.Run fails (crawlPage env urlStr) ⟨w, []⟩ result after)
    (contentStored : ContentStored after.log) :
    (Url.ofString (env.uninitUrl urlStr) urlStr).good = true ∧
    (Url.ofString (env.uninitUrl urlStr) urlStr).str = urlStr ∧
    ∃ crawlUrl status resp doc row r r',
      StoringCall env fails (Url.ofString (env.uninitUrl urlStr) urlStr) w crawlUrl
        status resp doc row
        r r' result after := by
  rcases crawlPage_outcome run with
    -- content is stored only by a call that processes a response
    quiet | ⟨good, same, crawlUrl, status, resp, row, r, processes, rest⟩
  · exact absurd contentStored (not_contentStored_of_quiet quiet)
  · rcases indexResponse_cases env _ row.hashes status resp with ⟨doc, document, stores⟩ | quiet
    · rcases storing_of_run processes document stores rest with ⟨nothing, _⟩ | ⟨r', storing⟩
      · exact absurd contentStored nothing
      · exact ⟨good, same, crawlUrl, status, resp, doc, row, r, r', storing⟩
    · obtain ⟨events, log, calm⟩ := log_of_runs (within_tryCatch quiet (quiet_crawlFailed _)) rest
      rw [log] at contentStored
      exact absurd contentStored (not_contentStored_append
        (not_contentStored_of_fetched processes.fetched)
        fun event member => storesContent_of_quiet (quiet_of_op (calm event member)))

section Ends

variable {content : PageContent} {row : PageRow} {result : Except Str Bool}
  (lists : content.internalLinks = internalLinks url linkUrls ∧
    content.crossSiteLinks = crossSiteLinks url linkUrls)
  (stored : r.state.pages url.str = some row)

include lists stored

/-- The events of the statements from the search vectors on. -/
private theorem storeIndex_events
    (run : env.Run fails (storeIndex env url content linkUrls) r result after) :
    ∃ events, after.log = r.log ++ events ∧
      match result with
      | .ok b => b = true ∧ Succeeded events ∧ Stored env url linkUrls row r.state after.state
      | .error _ => ∃ op done x, Succeeded done ∧ events = done ++ [⟨op, .error x⟩] ∧
          Interrupted env url linkUrls row r.state after.state op := by
  obtain ⟨events, log, again⟩ := runs_from_empty run
  have fresh : env.Wp fails (storeIndex env url content linkUrls) _ ⟨r.state, []⟩ :=
    storeIndex_outcome lists stored succeeded_nil
  -- no other way through a response stores content
  refine ⟨events, log, ?_⟩
  have outcome := wp_iff_runs.mp fresh result ⟨after.state, events⟩ again
  cases result with
  | ok b => exact outcome
  | error _ =>
    obtain ⟨op, ⟨done, x, all, failed⟩, interrupted⟩ := outcome
    exact ⟨op, done, x, all, failed, interrupted⟩

variable (ends : EndsWith env fails url content linkUrls r result after)

include ends

/-- Without a failure everything is stored. -/
theorem EndsWith.completes (succeeded : Succeeded after.log) :
    result = .ok true ∧ Stored env url linkUrls row r.state after.state := by
  rcases ends with ⟨b, rfl, index⟩ | ⟨x, middle, index, handled⟩
  · obtain ⟨events, _, rfl, _, complete⟩ := storeIndex_events lists stored index
    exact ⟨rfl, complete⟩
  · -- the exception comes from an operation that failed
    obtain ⟨events, log, op, done, x', _, failed, _⟩ := storeIndex_events lists stored index
    obtain ⟨more, later, _⟩ := log_of_runs (quiet_crawlFailed url x) handled
    refine absurd (succeeded ⟨op, .error x'⟩ ?_) not_succeeded_error
    rw [later, log, failed]
    simp

/-- The first failure says what was left behind before it was handled. -/
theorem EndsWith.interrupted {op : Op} {x : Str} {done rest : Log} (succeeded : Succeeded done)
    (log : after.log = r.log ++ (done ++ ⟨op, .error x⟩ :: rest)) :
    ∃ x middle, Interrupted env url linkUrls row r.state middle.state op ∧
      env.Run fails (crawlFailed url x) middle result after := by
  rcases ends with ⟨b, rfl, index⟩ | ⟨x', middle, index, handled⟩
  · obtain ⟨events, log', _, all, _⟩ := storeIndex_events lists stored index
    have same : events = done ++ ⟨op, .error x⟩ :: rest :=
      List.append_cancel_left (log'.symm.trans log)
    have failed : (⟨op, .error x⟩ : Event Op Op.Answer Str) ∈ events := by
      rw [same]
      simp
    exact absurd (all _ failed) not_succeeded_error
  · obtain ⟨events, log', op', done', x'', all, failed, interrupted⟩ :=
      storeIndex_events lists stored index
    obtain ⟨more, later, _⟩ := log_of_runs (quiet_crawlFailed url x') handled
    -- both are the first failure of one record
    have same : done' ++ ⟨op', .error x''⟩ :: more = done ++ ⟨op, .error x⟩ :: rest := by
      refine (List.append_right_inj r.log).mp ?_
      rw [← log, later, log', failed]
      simp
    obtain ⟨_, equal, _⟩ :=
      append_cons_unique all succeeded not_succeeded_error not_succeeded_error same
    cases equal
    exact ⟨x', middle, interrupted, handled⟩

end Ends

/-! ### Calls without a failure -/

section Succeeds

variable {w : World} {crawlUrl : Url} {status : Int} {resp : Response} {row : PageRow}
  {result : Except Str Bool} (processes : Processes url w crawlUrl status resp row r)
  (run : env.Run fails ((indexResponse env url row.hashes status resp).tryCatch (crawlFailed url))
    r result after) (succeeded : Succeeded after.log)

include processes run succeeded

/-- A call that stores the document stores everything. -/
theorem stored_of_run {doc : Document} (document : DocumentOf env url status resp doc)
    (dumped : Dumped env (pageContent env url status resp doc))
    (stores : indexResponse env url row.hashes status resp = storeContent env url status resp doc) :
    ∃ t before, before.linksOf url.str = w.linksOf url.str ∧
      Stored env url (Tlgs.linkUrls env url doc.links)
        (row.setContent t (pageContent env url status resp doc)) before after.state := by
  rcases storing_of_run processes document stores run with ⟨_, failing⟩ | ⟨r', storing⟩
  · exact absurd succeeded (failing dumped)
  · obtain ⟨t, page⟩ := storing.content.stored
    exact ⟨t, r'.state, storing.content.links, (storing.ends.completes ⟨rfl, rfl⟩ page succeeded).2⟩

omit processes in
/-- A call that takes the page to be unchanged makes one UPDATE. -/
theorem unchanged_of_run {mime : Str}
    (known : indexResponse env url row.hashes status resp = storeUnchanged url status resp mime) :
    ∃ later, after.state =
      env.apply (r.state.tick later) (.updateUnchanged url.str status resp.meta_ mime) () := by
  rw [known] at run
  rcases runs_tryCatch.mp run with ⟨b, rfl, body⟩ | ⟨x, middle, body, handled⟩
  · obtain ⟨_, updated, taken, _, rfl⟩ := runs_perform_ok body succeeded
    obtain ⟨later, _, _, effect, _⟩ := step_ok taken
    exact ⟨later, effect⟩
  · -- an exception can only come from the one statement, which succeeded
    obtain ⟨events, log, _⟩ := log_of_runs (quiet_crawlFailed url x) handled
    have before : Succeeded middle.log := fun event member =>
      succeeded event (log ▸ List.mem_append_left _ member)
    obtain ⟨_, _, _, equal, _⟩ := runs_perform_ok body before
    cases equal

end Succeeds

/-- The document that a call made of the response to its last request. -/
def FetchedDocument (env : Env) (url : Url) (log : Log) (crawlUrl : Url) (status : Int)
    (resp : Response) (doc : Document) : Prop :=
  LastRequest log crawlUrl resp ∧ resp.Concrete status ∧ DocumentOf env url status resp doc

end Tlgs
