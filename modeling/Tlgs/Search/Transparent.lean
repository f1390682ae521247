import Tlgs.Search.Handler

/-!
# Searches do not disturb each other

Requests share the cache, whose entries expire at any time, and the database may fail any of them.
Each that is answered is answered as on a server of its own, without a cache: the list of URLs in
its statement is read as it was put together, and the lists in the cache are those it would compute.
-/
namespace Tlgs

open Bytes Interactive Interactive.Program Interactive.Permits SqlLiterals

/-! ### The list of URLs -/

theorem denotes_unquoted {text : Str} (zero : 0 ∉ text) (quote : 39 ∉ text) :
    standard.Denotes text text := by
  intro rest ends
  induction text with
  | nil => exact Dialect.body_end ends
  | cons c text ih =>
    rw [List.mem_cons, not_or] at zero quote
    rw [List.cons_append, Dialect.body_char _ (Ne.symm zero.1) (Ne.symm quote.1) fun _ => rfl,
      ih zero.2 quote.2]
    rfl

/-- The URLs that get into the statement. -/
def listedUrls (items : List RankedResult) : List Str :=
  (items.map RankedResult.url).filter fun url => 39 ∉ url

theorem urlArray_eq_statement {items : List RankedResult} (some_url : listedUrls items ≠ []) :
    urlArray items = statement (commaParts ((listedUrls items).map fun url => [.quoted url])) := by
  have pieces : items.flatMap
      (fun item => if 39 ∈ item.url then [] else lit "'" ++ item.url ++ lit "', ") =
      (((listedUrls items).map fun url => [Part.quoted url]).map
        fun group => statement group ++ lit ", ").flatten := by
    clear some_url
    induction items with
    | nil => rfl
    | cons item items ih =>
      have opens : lit "'" = [39] := rfl
      have closes : lit "', " = 39 :: lit ", " := rfl
      rw [List.flatMap_cons, ih]
      by_cases quoted : 39 ∈ item.url
      · simp [listedUrls, quoted]
      · simp [listedUrls, quoted, opens, closes, Part.text]
  have groups : ((listedUrls items).map fun url => [Part.quoted url]) ≠ [] := by
    simpa using some_url
  have comma : (lit ", ").length = 2 := rfl
  simp only [urlArray, pieces, flatten_commaParts groups]
  -- what is cut off is the last separator
  rw [List.length_append, comma, Nat.add_sub_cancel, List.take_left]

theorem urlArray_eq_nil {items : List RankedResult} (no_url : listedUrls items = []) :
    urlArray items = [] := by
  have pieces : items.flatMap
      (fun item => if 39 ∈ item.url then [] else lit "'" ++ item.url ++ lit "', ") =
      [] := by
    rw [List.flatMap_eq_nil_iff]
    intro item member
    refine if_pos (by_contra fun plain => ?_)
    have listed : item.url ∈ listedUrls items :=
      List.mem_filter.mpr ⟨List.mem_map_of_mem member, by simpa using plain⟩
    rw [no_url] at listed
    cases listed
  simp only [urlArray, pieces, List.take_nil]

theorem placed_urls (urls : List Str) :
    Placed (commaParts (urls.map fun url => [.quoted url])) [] := by
  induction urls with
  | nil => trivial
  | cons url urls ih =>
    cases urls with
    | nil => exact ⟨ends_nil, trivial⟩
    | cons second urls => exact ⟨ends_comma _, rfl, ih⟩

/-- The literals of the statement denote the URLs that were put between their quotes. -/
theorem values_urlArray {items : List RankedResult} (some_url : listedUrls items ≠ [])
    (zeros : ∀ item ∈ items, 0 ∉ item.url) :
    standard.values (urlArray items) = some (listedUrls items) := by
  have texts : quotedTexts (commaParts ((listedUrls items).map fun url => [Part.quoted url])) =
      listedUrls items := by
    rw [quotedTexts_commaParts, List.flatMap_map]
    exact List.flatMap_singleton' _
  have denotes : ∀ text ∈
      quotedTexts (commaParts ((listedUrls items).map fun url => [Part.quoted url])),
      standard.Denotes text (id text) := by
    intro text listed
    rw [texts] at listed
    obtain ⟨among, plain⟩ := List.mem_filter.mp listed
    obtain ⟨item, member, rfl⟩ := List.mem_map.mp among
    exact denotes_unquoted (zeros item member) (of_decide_eq_true plain)
  rw [urlArray_eq_statement some_url,
    Dialect.values_statement (placed_urls _) denotes, texts, List.map_id]

/-! ### The rows of a page of results -/

variable {site : SearchSite} {rows : Rows}

variable (site rows) in
/-- The results of some items, each with the row of its URL. -/
def SearchSite.present (queryStr : Str) (items : List RankedResult) : List SearchResult :=
  items.filterMap fun item =>
    if 39 ∈ item.url then none else (rows.row queryStr item.url).map (site.searchResult item)

/-- What the statement selects is what each item needs. -/
theorem find_selected {queryStr : Str} {urls : List Str} {pages : List PageData} {url : Str}
    (selected : ∀ page, page ∈ pages ↔ ∃ url ∈ urls, rows.row queryStr url = some page) :
    (pages.reverse.find? fun page => page.url = url) = if url ∈ urls then rows.row queryStr url
      else none := by
  cases found : pages.reverse.find? fun page => page.url = url with
  | some page =>
    have same : page.url = url := by simpa using List.find?_some found
    obtain ⟨other, listed, row⟩ :=
      (selected page).mp (List.mem_reverse.mp (List.mem_of_find?_eq_some found))
    rw [rows.keyed _ _ _ row] at same
    rw [← same, if_pos listed, row]
  | none =>
    -- a page that was listed and has a row would have been found
    by_cases listed : url ∈ urls
    · rw [if_pos listed]
      cases row : rows.row queryStr url with
      | none => rfl
      | some page =>
        have member : page ∈ pages.reverse :=
          List.mem_reverse.mpr ((selected page).mpr ⟨url, listed, row⟩)
        have other := List.find?_eq_none.mp found page member
        exact absurd (rows.keyed _ _ _ row) (by simpa using other)
    · rw [if_neg listed]

theorem collect_selected {queryStr : Str} {items : List RankedResult} {pages : List PageData}
    (selected : ∀ page, page ∈ pages ↔ ∃ url ∈ listedUrls items,
      rows.row queryStr url = some page) :
    site.collect items pages = site.present rows queryStr items := by
  refine List.filterMap_congr fun item member => ?_
  rw [find_selected selected]
  by_cases quoted : 39 ∈ item.url
  · have unlisted : item.url ∉ listedUrls items := fun listed =>
      absurd (List.mem_filter.mp listed).2 (by simpa using quoted)
    rw [if_pos quoted, if_neg unlisted, Option.map_none]
  · have listed : item.url ∈ listedUrls items :=
      List.mem_filter.mpr ⟨List.mem_map_of_mem member, by simpa using quoted⟩
    rw [if_neg quoted, if_pos listed]

/-! ### The answer on a server of one's own -/

variable (site rows) in
/-- A page of results, for a query text that is not empty. -/
def SearchSite.page (req : SearchRequest) (input queryStr : Str) (filter : SearchFilter) :
    SearchAnswer :=
  let filtered := site.computed queryStr filter
  match site.pageSlice (fileName req.path) filtered with
  | none => .undefined
  | some items => .view (site.data req input filtered (site.present rows queryStr items))

variable (site rows) in
/-- The answer without a cache, on a server that no one else uses. -/
def SearchSite.alone (req : SearchRequest) : Except Str SearchAnswer :=
  let input := site.urlDecode req.query
  match parseSearchQuery site.splitString site.sizeLimit input with
  | none => .error (lit "stod")
  | some (queryStr, filter) =>
    if queryStr.map tolower = [] then .ok (.askInput (lit "Search for something"))
    else .ok (site.page rows req input (queryStr.map tolower) filter)

variable (site rows) in
/-- A request fails, or it is turned away, or it is answered as it would be alone. -/
def SearchSite.Answers (req : SearchRequest) : Except Str SearchAnswer → Prop
  | .ok (.tooManyRequests _) => True
  | .ok answer => site.alone rows req = .ok answer
  | .error _ => True

/-- What an operation may answer. -/
def SearchOp.honest (site : SearchSite) (rows : Rows) (asked : Str × SearchFilter → Prop) :
    (op : SearchOp) → Except Str op.Answer → Prop
  | .findAndFetch key, .ok (some value) => site.Meaning asked key value
  | .pageSearch queryStr, .ok ranked => ranked = site.pageSearch queryStr
  | .selectPages urlArray queryStr, .ok pages => rows.Selects urlArray queryStr pages
  | _, _ => True

/-- What gets into the cache. -/
def SearchOp.means (site : SearchSite) (asked : Str × SearchFilter → Prop) : SearchOp → Prop
  | .insertCache key value => site.Meaning asked key value
  | _ => True

section Requests

variable {asked : Str × SearchFilter → Prop}

/-- The lists in the cache stay the ones that the requests would compute. -/
theorem searchStep_honest {w after : SearchWorld} {op : SearchOp} {answer : Except Str op.Answer}
    (means : op.means site asked) (sound : site.Sound asked w.cache)
    (taken : searchStep site rows w op answer after) :
    site.Sound asked after.cache ∧ op.honest site rows asked answer := by
  cases op with
  | findAndFetch key =>
    cases answer with
    | error x => cases taken
    | ok found =>
      obtain ⟨rfl, rfl⟩ := taken
      refine ⟨sound, ?_⟩
      cases stored : after.cache key with
      | none => trivial
      | some value => exact sound key value stored
  | insertCache key value =>
    cases answer with
    | error x => cases taken
    | ok done =>
      -- the entry may expire at once
      rcases taken with ⟨_, rfl⟩ | rfl
      · exact ⟨sound, trivial⟩
      · exact ⟨Server.sound_insert sound means, trivial⟩
  | _ => cases answer <;> grind [searchStep, SearchOp.honest]

theorem sound_expires {w after : SearchWorld} (sound : site.Sound asked w.cache)
    (moved : Expires w after) :
    site.Sound asked after.cache := by
  obtain ⟨cache, fewer, rfl⟩ := moved
  intro key value stored
  rcases fewer key with same | gone
  · exact sound key value (same.symm.trans stored)
  · cases gone.symm.trans stored

/-! ### One request among others -/

variable (agree : ∀ a b, asked a → asked b → site.Agree a b) {queryStr : Str}
  {filter : SearchFilter}
  (own : asked (queryStr, filter))

include agree own

theorem meets_fetchRanked : Meets (SearchOp.honest site rows asked) (SearchOp.means site asked)
    (fun outcome => ∀ ranked, outcome = .ok ranked → ranked = site.pageSearch queryStr)
    (fetchRanked site queryStr) := by
  refine meets_perform_bind.mpr ⟨trivial, fun found means => ?_⟩
  rcases found with x | ranked | ranked
  · exact nofun
  · -- computed, and put into the cache
    refine meets_perform_bind.mpr ⟨trivial, fun answer searched => ?_⟩
    cases answer with
    | error x => exact nofun
    | ok ranked =>
      refine meets_perform_bind.mpr
        ⟨⟨(queryStr, filter), own, .inl ⟨rfl, searched⟩⟩, fun stored _ => ?_⟩
      cases stored with
      | error x => exact nofun
      | ok done =>
        rintro _ ⟨⟩
        exact searched
  · -- found in the cache
    rintro _ ⟨⟩
    exact Server.raw_meaning agree own means

theorem meets_fetchFiltered : Meets (SearchOp.honest site rows asked) (SearchOp.means site asked)
    (fun outcome => ∀ filtered, outcome = .ok filtered → filtered = site.computed queryStr filter)
    (fetchFiltered site queryStr filter) := by
  refine meets_perform_bind.mpr ⟨trivial, fun found means => ?_⟩
  rcases found with x | filtered | filtered
  · exact nofun
  · refine (meets_fetchRanked agree own).bind (fun ranked searched => ?_) fun x _ => nofun
    cases searched ranked rfl
    refine meets_perform_bind.mpr ⟨⟨(queryStr, filter), own, .inr ⟨rfl, rfl⟩⟩, fun stored _ => ?_⟩
    cases stored with
    | error x => exact nofun
    | ok done =>
      rintro _ ⟨⟩
      rfl
  · rintro _ ⟨⟩
    exact Server.filtered_meaning agree own means

end Requests

/-- PostgreSQL stores no text with a zero byte in it. -/
def SearchSite.Texts (site : SearchSite) : Prop :=
  ∀ queryStr, ∀ item ∈ site.pageSearch queryStr, 0 ∉ item.url

theorem pageSlice_subset {segment : Str} {filtered items : List RankedResult}
    (slice : site.pageSlice segment filtered = some items) : items ⊆ filtered := by
  simp only [SearchSite.pageSlice] at slice
  split at slice
  · rw [pageItems, RankedResults.subrange_sliceBounds] at slice
    split at slice
    · cases slice
      exact fun item member => List.mem_of_mem_drop (List.mem_of_mem_take member)
    · cases slice
  · cases slice

section Answered

variable {asked : Str × SearchFilter → Prop}

theorem meets_selectItems {queryStr : Str} {items : List RankedResult}
    (zeros : ∀ item ∈ items, 0 ∉ item.url) :
    Meets (SearchOp.honest site rows asked) (SearchOp.means site asked)
      (fun outcome => ∀ pages, outcome = .ok pages →
        site.collect items pages = site.present rows queryStr items)
      (selectItems queryStr items) := by
  -- nothing is asked of the database when nothing is listed
  by_cases some_url : listedUrls items = []
  · rw [selectItems, if_pos (urlArray_eq_nil some_url)]
    rintro _ ⟨⟩
    refine collect_selected fun page => ?_
    simp [some_url]
  · have values := values_urlArray some_url zeros
    have array : urlArray items ≠ [] := by
      intro empty
      rw [empty] at values
      exact some_url (Option.some.inj values).symm
    rw [selectItems, if_neg array]
    -- the array that is bound denotes the URLs, so the rows are theirs
    refine meets_perform.mpr ⟨trivial, fun answer selects => ?_⟩
    cases answer with
    | error x => exact nofun
    | ok pages =>
      rintro _ ⟨⟩
      obtain ⟨urls, denoted, selected⟩ := selects
      cases values.symm.trans denoted
      exact collect_selected selected

variable (texts : site.Texts) (agree : ∀ a b, asked a → asked b → site.Agree a b)

include texts agree

theorem meets_showResults (req : SearchRequest) (input : Str) {queryStr : Str}
    {filter : SearchFilter} (own : asked (queryStr, filter)) :
    Meets (SearchOp.honest site rows asked) (SearchOp.means site asked)
      (fun outcome => ∀ answer, outcome = .ok answer →
        answer = site.page rows req input queryStr filter)
      (showResults site req input queryStr filter) := by
  refine (meets_fetchFiltered agree own).bind (fun filtered computed => ?_) fun x _ => nofun
  cases computed filtered rfl
  simp only [SearchSite.page]
  cases slice : site.pageSlice (fileName req.path) (site.computed queryStr filter) with
  | none =>
    rintro _ ⟨⟩
    rfl
  | some items =>
    -- no URL has a terminator in it, so the array is read as it was written
    have zeros : ∀ item ∈ items, 0 ∉ item.url := fun item member =>
      texts queryStr item ((filterResults_sublist filter _).subset (pageSlice_subset slice member))
    refine (meets_selectItems zeros).bind (fun pages collected => ?_) fun x _ => nofun
    rintro _ ⟨⟩
    rw [collected pages rfl]

/-- The request whose text and filter are asked for, if it has them. -/
theorem meets_tlgsSearch (req : SearchRequest)
    (own : ∀ request, site.parseRequest (site.urlDecode req.query) = some request → asked request) :
    Meets (SearchOp.honest site rows asked) (SearchOp.means site asked) (site.Answers rows req)
      (tlgsSearch site req) := by
  refine meets_bracket trivial trivial (fun count => ?_) fun x => trivial
  simp only [handleSearch]
  split
  · -- turned away
    refine meets_perform_bind.mpr ⟨trivial, fun answer _ => ?_⟩
    cases answer <;> trivial
  · -- let in, and answered as the request is
    refine meets_perform_bind.mpr ⟨trivial, fun answer _ => ?_⟩
    cases answer with
    | error x => trivial
    | ok done =>
      dsimp only [Before]
      cases parsed : parseSearchQuery site.splitString site.sizeLimit
        (site.urlDecode req.query) with
      | none => trivial
      | some request =>
        obtain ⟨queryStr, filter⟩ := request
        dsimp only
        split
        next empty =>
          simp [SearchSite.Answers, SearchSite.alone, parsed, empty]
        next text =>
          have request : asked (queryStr.map tolower, filter) :=
            own _ (by simp [Server.parseRequest, parsed, text])
          refine (meets_showResults texts agree req _ request).mono fun outcome shown => ?_
          cases outcome with
          | error x => trivial
          | ok answer =>
            have alone : site.alone rows req = .ok answer := by
              simp [SearchSite.alone, parsed, text, shown answer rfl]
            cases answer with
            | tooManyRequests _ => trivial
            | _ => exact alone

end Answered

/-- What the requests of some labels are made of. -/
def SearchSite.AskedBy {ι : Type} (site : SearchSite) (label : ι → SearchRequest) :
    Str × SearchFilter → Prop :=
  site.Asked fun input => ∃ i, input = site.urlDecode (label i).query

/-- While the database does not change, in every run of any number of requests, in any interleaving,
with entries that expire and statements that fail: a request that ends without an exception and was
not turned away is answered as it would be on a server of its own without a cache, as long as no two
of the requests disturb each other under their keys. And the cache holds what they would compute. -/
theorem searches_transparent {ι : Type} {label : ι → SearchRequest} (texts : site.Texts)
    (agree : ∀ a b, site.AskedBy label a → site.AskedBy label b → site.Agree a b)
    {pool : Searches ι} (reached : Searching site rows label pool) :
    site.Sound (site.AskedBy label) pool.state.cache ∧ ∀ thread ∈ pool.threads, ∀ outcome,
      thread.program = .done outcome → site.Answers rows (label thread.label) outcome := by
  have initially : site.Sound (site.AskedBy label) SearchWorld.started.cache := by
    intro key value stored
    cases stored
  have safe : PoolSafe (searchStep site rows) (fun w => site.Sound (site.AskedBy label) w.cache)
      (fun _ _ => True) (fun i outcome _ => site.Answers rows (label i) outcome) pool := by
    refine reached.poolSafe (fun _ => trivial) (fun _ _ _ _ _ => trivial)
      (fun s after sound moved => ⟨sound_expires sound moved, trivial⟩) (fun s i _ => ?_) initially
    -- what a request asks is one of those asked
    have own : ∀ request, site.parseRequest (site.urlDecode (label i).query) = some request →
        site.AskedBy label request := fun request parsed => ⟨_, ⟨i, rfl⟩, parsed⟩
    refine (meets_tlgsSearch texts agree (label i) own).safe
      (fun s op answer after means sound taken => ?_) s []
    obtain ⟨sound', honest⟩ := searchStep_honest means sound taken
    exact ⟨⟨sound', trivial⟩, honest⟩
  exact ⟨safe.1, fun thread member outcome ended => safe.ended member ended⟩

def SearchAnswer.urls : SearchAnswer → List Str
  | .view data => data.searchResult.map SearchResult.url
  | _ => []

/-- The list of results is computed. -/
def computesList : Event SearchOp SearchOp.Answer Str → Bool
  | ⟨.pageSearch _, _⟩ => true
  | _ => false

/-- Two pages are found, and one of them has a row. The second request finds the list in the
cache. -/
theorem searches_transparent_served :
    let rows : Rows := ⟨fun _ url => if url = lit "gemini://b/" then
      some ⟨url, 4, lit "B", lit "text/gemini", lit "", lit ""⟩ else none, by grind⟩
    let label : Unit → SearchRequest := fun _ => ⟨lit "/search", lit "x"⟩
    ∃ pool : Searches Unit, Searching SearchSite.small rows label pool ∧
      (∃ first second outcome, pool.threads = [first, second] ∧
        first.log.any computesList = true ∧ second.log.any computesList = false ∧
        second.program = .done outcome ∧
        outcome.toOption.map SearchAnswer.urls = some [lit "gemini://b/"]) ∧
      SearchSite.small.Sound (SearchSite.small.AskedBy label) pool.state.cache ∧
        ∀ thread ∈ pool.threads,
        ∀ outcome, thread.program = .done outcome →
          SearchSite.small.Answers rows (label thread.label) outcome := by
  intro rows label
  have once : Searching SearchSite.small rows label _ :=
    SearchSite.small.serves rows label () .start
  have twice := SearchSite.small.serves rows label () once
  have texts : SearchSite.small.Texts := by
    intro queryStr item found
    rcases List.mem_cons.mp found with rfl | found
    · decide
    · cases List.mem_singleton.mp found
      decide
  refine ⟨_, twice, ⟨_, _, _, rfl, ?_, ?_, rfl, ?_⟩, searches_transparent texts ?_ twice⟩
  · decide +kernel
  · decide +kernel
  · decide +kernel
  · -- both requests are one and the same query
    have only : ∀ request, SearchSite.small.AskedBy label request → request = (lit "x", {}) := by
      rintro request ⟨input, ⟨_, rfl⟩, parsed⟩
      cases parsed
      rfl
    intro a b asked asked'
    rw [only a asked, only b asked']
    exact ⟨fun _ _ => rfl, fun equal _ => absurd equal (by decide +kernel)⟩

end Tlgs
