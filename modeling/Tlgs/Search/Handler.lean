import Tlgs.Base.Permits
import Tlgs.Crawler.Statements
import Tlgs.Search.Cache
import Tlgs.Search.Encode
import Tlgs.Search.Paging
import Tlgs.Search.Sanitize
import Mathlib.Data.Nat.Find

/-!
# The search handler

`tlgs_search` as a program over what it shares with the other requests: the two counters, the cache
and the database. A request counts itself in flight until its coroutine ends, with an answer or an
exception. The rows of a page of results are selected by a statement that lists their URLs.
-/
namespace Tlgs

open Bytes Interactive Interactive.Program SqlLiterals

/-! ### Requests and answers -/

/-- The path of a request, and its parameter `query`. -/
structure SearchRequest where
  path : Str
  query : Str
  deriving DecidableEq, Repr

/-- A row as it is selected for a page of results. -/
structure PageData where
  url : Str
  size : UInt64
  title : Str
  contentType : Str
  preview : Str
  lastCrawlSuccessAt : Str
  deriving DecidableEq, Repr

structure SearchResult where
  url : Str
  title : Str
  contentType : Str
  preview : Str
  lastCrawledAt : Str
  size : UInt64
  score : Rat
  deriving DecidableEq, Repr

/-- The data of the view `search_result`. -/
structure SearchView where
  searchResult : List SearchResult
  title : Str
  verbose : Bool
  encodedSearchTerm : Str
  totalResults : Nat
  currentPageIdx : UInt64
  itemPerPage : UInt64
  searchQuery : Str
  deriving DecidableEq, Repr

inductive SearchAnswer
  /-- status 429, with the seconds of `Retry-After` -/
  | tooManyRequests (retryAfter : Nat)
  /-- status 10, with its meta line -/
  | askInput (meta_ : Str)
  | view (data : SearchView)
  /-- the slice lies outside of the vector, which is undefined -/
  | undefined
  deriving DecidableEq, Repr

/-- What a search takes from elsewhere beside the cache and the database: replacing in a text,
decoding the input, writing the date of a row anew, and the address at which the results of a vector
lie. -/
structure SearchSite extends Server where
  replaceAll : Str → Str → Str → Str
  urlDecode : Str → Str
  formatDate : Str → Str
  address : List RankedResult → UInt64

inductive SearchOp
  /-- `Counter counter(search_in_flight)` -/
  | takeCount
  /-- `~Counter` -/
  | giveBack
  /-- `backup_count++` -/
  | countBackup
  /-- `backup_count = 0` -/
  | resetBackup
  | findAndFetch (key : Str)
  | insertCache (key : Str) (value : List RankedResult)
  | pageSearch (queryStr : Str)
  /-- `SELECT … FROM pages WHERE url IN (url_array)` -/
  | selectPages (urlArray queryStr : Str)

@[reducible] def SearchOp.Answer : SearchOp → Type
  | .takeCount => Nat
  | .countBackup => Nat
  | .findAndFetch _ => Option (List RankedResult)
  | .pageSearch _ => List RankedResult
  | .selectPages _ _ => List PageData
  | _ => Unit

abbrev Search := Program SearchOp SearchOp.Answer Str

abbrev SearchOp.perform (op : SearchOp) : Search op.Answer := Program.perform op

/-! ### The handler -/

/-- `count > 9*64 ? 512 : std::pow(2, count/64.0)` as a `size_t`: the greatest integer whose 64th
power is no greater than that of two to `count`. -/
def retryAfter (count : Nat) : Nat :=
  if 9 * 64 < count then 512 else Nat.findGreatest (fun n => n ^ 64 ≤ 2 ^ count) 512

/-- `std::filesystem::path(…).filename()`. -/
def fileName (path : Str) : Str := path.rtakeWhile (· != 47)

/-- "we do ignore bad strings". -/
def urlArray (items : List RankedResult) : Str :=
  let array := items.flatMap fun item =>
    if 39 ∈ item.url then [] else lit "'" ++ item.url ++ lit "', "
  array.take (array.length - 2)

variable (site : SearchSite)

/-- The results fit between their address and the end of the memory, as in every vector. -/
def SearchSite.Fits (filtered : List RankedResult) : Prop :=
  (site.address filtered).toNat + 88 * filtered.length < 2 ^ 64

instance (filtered : List RankedResult) : Decidable (site.Fits filtered) :=
  inferInstanceAs (Decidable (_ < _))

/-- The items of a page. -/
def SearchSite.pageSlice (segment : Str) (filtered : List RankedResult) :
    Option (List RankedResult) :=
  if fits : site.Fits filtered then pageItems segment ⟨filtered, site.address filtered, fits⟩
  else none

def SearchSite.searchResult (item : RankedResult) (page : PageData) : SearchResult where
  url := item.url
  title := page.title
  contentType := page.contentType
  preview := if page.preview = [] then lit "No preview provided" else page.preview
  lastCrawledAt := site.formatDate page.lastCrawlSuccessAt
  size := page.size
  score := item.score

/-- The rows in the order of the items. Of two rows of one URL the last is found. -/
def SearchSite.collect (items : List RankedResult) (pages : List PageData) : List SearchResult :=
  items.filterMap fun item =>
    (pages.reverse.find? fun page => page.url = item.url).map (site.searchResult item)

def SearchSite.data (req : SearchRequest) (input : Str) (filtered : List RankedResult)
    (results : List SearchResult) : SearchView where
  searchResult := results
  title := sanitizeGemini site.replaceAll input ++ lit " - TLGS Search"
  verbose := startsWith req.path (lit "/v/search")
  encodedSearchTerm := urlEncode input
  totalResults := filtered.length
  currentPageIdx := requestedPage (fileName req.path) - 1
  itemPerPage := itemPerPage
  searchQuery := input

def fetchRanked (queryStr : Str) : Search (List RankedResult) := do
  let found ← SearchOp.perform (.findAndFetch (site.rawResultCacheKey queryStr))
  match found with
  | some ranked => pure ranked
  | none => do
    let ranked ← SearchOp.perform (.pageSearch queryStr)
    SearchOp.perform (.insertCache (site.rawResultCacheKey queryStr) ranked)
    pure ranked

def fetchFiltered (queryStr : Str) (filter : SearchFilter) : Search (List RankedResult) := do
  let found ← SearchOp.perform (.findAndFetch (site.filteredResultCacheKey queryStr filter))
  match found with
  | some filtered => pure filtered
  | none => do
    let ranked ← fetchRanked site queryStr
    SearchOp.perform
      (.insertCache (site.filteredResultCacheKey queryStr filter) (filterResults filter ranked))
    pure (filterResults filter ranked)

/-- The rows of the items; no statement is made for no URL. -/
def selectItems (queryStr : Str) (items : List RankedResult) : Search (List PageData) :=
  if urlArray items = [] then pure [] else SearchOp.perform (.selectPages (urlArray items) queryStr)

/-- From the keys of the cache on. -/
def showResults (req : SearchRequest) (input queryStr : Str) (filter : SearchFilter) :
    Search SearchAnswer :=
  do
  let filtered ← fetchFiltered site queryStr filter
  match site.pageSlice (fileName req.path) filtered with
  | none => pure .undefined
  | some items => do
    let pages ← selectItems queryStr items
    pure (.view (site.data req input filtered (site.collect items pages)))

/-- What the handler does with the count of the requests that were in flight before. -/
def handleSearch (req : SearchRequest) (count : Nat) : Search SearchAnswer :=
  if 64 < count then do
    let count ← SearchOp.perform .countBackup
    pure (.tooManyRequests (retryAfter count))
  else do
    SearchOp.perform .resetBackup
    let input := site.urlDecode req.query
    match parseSearchQuery site.splitString site.sizeLimit input with
    -- a number that `std::stod` does not read
    | none => throw (lit "stod")
    | some (queryStr, filter) =>
      if queryStr.map tolower = [] then pure (.askInput (lit "Search for something"))
      else showResults site req input (queryStr.map tolower) filter

def tlgsSearch (req : SearchRequest) : Search SearchAnswer :=
  Permits.bracket .takeCount .giveBack (handleSearch site req)

/-! ### What the requests share -/

/-- The rows that a query text and a URL select, for a database that does not change. -/
structure Rows where
  row : Str → Str → Option PageData
  keyed : ∀ queryStr url page, row queryStr url = some page → page.url = url

/-- The atomics and the cache; beside them what the requests that were turned away were told since
one was let in. -/
structure SearchWorld where
  inFlight : Nat
  backupCount : Nat
  cache : Cache
  told : List Nat

/-- The rows that a statement selects are those of the URLs that its literals denote. -/
def Rows.Selects (rows : Rows) (urlArray queryStr : Str) (pages : List PageData) : Prop :=
  ∃ urls, standard.values urlArray = some urls ∧
    ∀ page, page ∈ pages ↔ ∃ url ∈ urls, rows.row queryStr url = some page

/-- One operation. The search and the selection of rows may fail; an entry that is in the cache
already may stay. -/
def searchStep (rows : Rows) : Step SearchOp SearchOp.Answer Str SearchWorld :=
  fun w op answer after =>
    match op, answer with
    | .takeCount, .ok count => count = w.inFlight ∧ after = { w with inFlight := w.inFlight + 1 }
    | .giveBack, .ok _ => after = { w with inFlight := w.inFlight - 1 }
    | .countBackup, .ok count =>
      count = w.backupCount ∧
        after = { w with backupCount := w.backupCount + 1, told := w.told ++ [retryAfter count] }
    | .resetBackup, .ok _ => after = { w with backupCount := 0, told := [] }
    | .findAndFetch key, .ok found => found = w.cache key ∧ after = w
    | .insertCache key value, .ok _ =>
      (w.cache key).isSome ∧ after = w ∨ after = { w with cache := Server.insert w.cache key value }
    | .pageSearch queryStr, .ok ranked => ranked = site.pageSearch queryStr ∧ after = w
    | .selectPages urlArray queryStr, .ok pages => rows.Selects urlArray queryStr pages ∧ after = w
    | .pageSearch _, .error _ | .selectPages _ _, .error _ => after = w
    | _, .error _ => False

/-- Entries of the cache expire. -/
def Expires (w after : SearchWorld) : Prop :=
  ∃ cache : Cache, (∀ key, cache key = w.cache key ∨ cache key = none) ∧
    after = { w with cache := cache }

/-- The server when it starts. -/
def SearchWorld.started : SearchWorld := ⟨0, 0, Server.emptyCache, []⟩

abbrev Searches (ι : Type) := Pool SearchOp SearchOp.Answer Str SearchAnswer SearchWorld ι

/-- The requests for which `label` stands, side by side from the start of the server. -/
abbrev Searching {ι : Type} (rows : Rows) (label : ι → SearchRequest) : Searches ι → Prop :=
  Reachable (searchStep site rows) Expires (fun i => tlgsSearch site (label i)) .started

/-! ### A given server -/

/-- The answers of a server on which nothing fails and every entry that is inserted is stored. -/
def SearchSite.respond (rows : Rows) (w : SearchWorld) :
    (op : SearchOp) → Except Str op.Answer × SearchWorld
  | .takeCount => (.ok w.inFlight, { w with inFlight := w.inFlight + 1 })
  | .giveBack => (.ok (), { w with inFlight := w.inFlight - 1 })
  | .countBackup =>
    (.ok w.backupCount,
      { w with backupCount := w.backupCount + 1, told := w.told ++ [retryAfter w.backupCount] })
  | .resetBackup => (.ok (), { w with backupCount := 0, told := [] })
  | .findAndFetch key => (.ok (w.cache key), w)
  | .insertCache key value => (.ok (), { w with cache := Server.insert w.cache key value })
  | .pageSearch queryStr => (.ok (site.pageSearch queryStr), w)
  | .selectPages urlArray queryStr =>
    match standard.values urlArray with
    | some urls => (.ok (urls.filterMap (rows.row queryStr)), w)
    | none => (.error (lit "syntax error"), w)

theorem SearchSite.respond_step (rows : Rows) (w : SearchWorld) (op : SearchOp) :
    searchStep site rows w op (site.respond rows w op).1 (site.respond rows w op).2 := by
  cases op with
  | insertCache key value => exact .inr rfl
  | selectPages urlArray queryStr =>
    simp only [respond]
    cases denoted : standard.values urlArray with
    | none => rfl
    | some urls => exact ⟨⟨urls, denoted, fun page => List.mem_filterMap⟩, rfl⟩
  | _ => first | exact ⟨rfl, rfl⟩ | rfl

/-- A request that is answered while no other one is under way. -/
def SearchSite.serve (rows : Rows) (req : SearchRequest) (w : SearchWorld) :
    Except Str SearchAnswer × Recorded SearchOp SearchOp.Answer Str SearchWorld :=
  simulate (recording (site.respond rows)) (tlgsSearch site req) ⟨w, []⟩

/-- A pool can serve one more request while the others wait. -/
theorem SearchSite.serves {ι : Type} (rows : Rows) (label : ι → SearchRequest) (i : ι)
    {w : SearchWorld} {threads : List (Thread SearchOp SearchOp.Answer Str SearchAnswer ι)}
    (reached : Searching site rows label ⟨w, threads⟩) :
    Searching site rows label ⟨(site.serve rows (label i) w).2.state,
      threads ++ [⟨i, .done (site.serve rows (label i) w).1,
        (site.serve rows (label i) w).2.log⟩]⟩ := by
  have run : Runs (record (searchStep site rows)) (tlgsSearch site (label i)) ⟨w, []⟩
      (site.serve rows (label i) w).1 (site.serve rows (label i) w).2 :=
    runs_simulate (record_recording (site.respond_step rows)) rfl
  exact Reachable.of_runs (reached.next (.spawn i)) run

/-- A server that finds two pages, whatever is asked for. -/
def SearchSite.small : SearchSite where
  toServer := Server.smallServer (fun _ => 0) (fun _ => 0) 0
  replaceAll := Bytes.replaceAll
  urlDecode := FormEncoding.decode
  formatDate date := date
  address _ := 93824992231424

end Tlgs
