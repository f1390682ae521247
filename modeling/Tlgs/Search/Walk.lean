import Tlgs.Search.View

/-!
# From page to page

A link on a page of results is followed to a request for the same search. From the first page on,
the links to the next page lead through the results in the order of their rank, each once, until
they are at an end or a page shows nothing.
-/
namespace Tlgs

open Bytes FormEncoding

variable {site : SearchSite} {rows : Rows}

/-! ### Requests -/

/-- What a link is a request for: its path, and the query behind the first question mark. -/
def follow (target : Str) : SearchRequest :=
  ⟨target.takeWhile (· != 63), (target.dropWhile (· != 63)).drop 1⟩

/-- The request is for this page of the search. -/
structure Asks (site : SearchSite) (req : SearchRequest) (input : Str) (verbose : Bool)
    (page : UInt64) : Prop where
  input : site.urlDecode req.query = input
  verbose : startsWith req.path (lit "/v/search") = verbose
  page : requestedPage (fileName req.path) = page

theorem follow_target {path : Str} (no_query : 63 ∉ path) (term : Str) :
    follow (path ++ lit "?" ++ term) = ⟨path, term⟩ := by
  have plain : ∀ c ∈ path, (c != 63) = true := by
    intro c member
    rw [bne_iff_ne]
    rintro rfl
    exact no_query member
  have mark : lit "?" = [63] := rfl
  rw [follow, mark, List.append_assoc, List.takeWhile_append_of_pos plain,
    List.dropWhile_append_of_pos plain]
  simp

theorem fileName_segment {directory segment : Str} (no_slash : 47 ∉ segment) :
    fileName (directory ++ lit "/" ++ segment) = segment := by
  have plain : ∀ c ∈ segment.reverse, (c != 47) = true := by
    intro c member
    rw [bne_iff_ne]
    rintro rfl
    exact no_slash (List.mem_reverse.mp member)
  have slash : lit "/" = [47] := rfl
  rw [fileName, List.rtakeWhile, slash, List.append_assoc, List.reverse_append, List.reverse_append,
    List.append_assoc, List.takeWhile_append_of_pos plain]
  simp

theorem asks_page (decodes : DecodesForms site.urlDecode) {view : SearchView} {input : Str}
    (term : view.encodedSearchTerm = urlEncode input) (verbose : Bool) (page : UInt64) :
    Asks site (follow (view.pageTarget verbose page)) input verbose page := by
  have digit {c : UInt8} (other : isdigit c = false) : c ∉ decimal page.toNat := by
    intro member
    rw [isdigit_of_mem_decimal member] at other
    cases other
  have path : 63 ∉ searchPath verbose ++ lit "/" ++ decimal page.toNat := by
    simp only [List.mem_append, not_or]
    refine ⟨⟨?_, by decide⟩, digit (by decide)⟩
    cases verbose <;> decide
  rw [SearchView.pageTarget, follow_target path, term]
  refine ⟨urlDecode_urlEncode decodes input, ?_, ?_⟩
  · cases verbose <;> rfl
  · rw [fileName_segment (digit (by decide)), requestedPage, tryStrtoull_decimal _ page.toNat_lt,
      Option.getD_some, UInt64.ofNat_toNat]

theorem parseRequest_eq_some {input queryStr : Str} {filter : SearchFilter} :
    site.parseRequest input = some (queryStr, filter) ↔
      ∃ text, parseSearchQuery site.splitString site.sizeLimit input = some (text, filter) ∧
        text.map tolower ≠ [] ∧
        queryStr = text.map tolower := by
  simp only [Server.parseRequest]
  cases parseSearchQuery site.splitString site.sizeLimit input with
  | none => simp
  | some request =>
    obtain ⟨text, filter'⟩ := request
    dsimp only
    -- a search without text is redirected
    split
    next empty =>
      refine iff_of_false (Option.some_ne_none _).symm ?_
      rintro ⟨_, ⟨⟩, some_text, _⟩
      exact some_text empty
    next some_text =>
      constructor
      · rintro ⟨⟩
        exact ⟨text, rfl, some_text, rfl⟩
      · rintro ⟨_, ⟨⟩, _, rfl⟩
        rfl

theorem alone_of_slice {req : SearchRequest} {queryStr : Str} {filter : SearchFilter}
    {items : List RankedResult}
    (parsed : site.parseRequest (site.urlDecode req.query) = some (queryStr, filter))
    (slice : site.pageSlice (fileName req.path) (site.computed queryStr filter) = some items) :
    site.alone rows req = .ok
      (.view (site.data req (site.urlDecode req.query) (site.computed queryStr filter)
      (site.present rows queryStr items))) := by
  obtain ⟨text, read, some_text, rfl⟩ := parseRequest_eq_some.mp parsed
  simp only [SearchSite.alone, read, if_neg some_text, SearchSite.page, slice]

/-- Of the two pages that are found, the second has a row. -/
def Rows.small : Rows where
  row _ url :=
    if url = lit "gemini://b/" then some ⟨url, 4, lit "B", lit "text/gemini", lit "b", lit ""⟩
      else none
  keyed _ url page found := by grind

variable (site rows) in
/-- The pages that are seen when the link to the next page is followed as long as there is one, at
most so many. -/
def SearchSite.walk : Nat → SearchRequest → List SearchView
  | 0, _ => []
  | pages + 1, req =>
    match site.alone rows req with
    | .ok (.view view) =>
      match if view.searchResult = [] then none else view.nextTarget with
      | some target => view :: walk pages (follow target)
      | none => [view]
    | _ => []

theorem pageSlice_of_requested {segment : Str} {filtered : List RankedResult} {i : Nat}
    (requested : requestedPage segment = UInt64.ofNat (i + 1)) (within : 10 * i ≤ filtered.length)
    (fits : site.Fits filtered) :
    site.pageSlice segment filtered = some ((filtered.drop (10 * i)).take 10) := by
  rw [SearchSite.pageSlice, dif_pos fits]
  exact pageItems_of_requested requested within

theorem SearchSite.Fits.length_lt {filtered : List RankedResult} (fits : site.Fits filtered) :
    filtered.length < 2 ^ 63 := by
  simp only [SearchSite.Fits] at fits
  omega

theorem maxPages_eq {view : SearchView} (ten : view.itemPerPage = itemPerPage)
    (fits : view.totalResults < 2 ^ 63) :
    view.maxPages = UInt64.ofNat ((view.totalResults + 9) / 10) := by
  have width : itemPerPage.toNat = 10 := rfl
  have total : (UInt64.ofNat view.totalResults).toNat = view.totalResults := by
    rw [UInt64.toNat_ofNat']
    omega
  have rest : (UInt64.ofNat view.totalResults % itemPerPage ≠ 0) ↔ view.totalResults % 10 ≠ 0 := by
    rw [ne_eq, ← UInt64.toNat_inj, UInt64.toNat_mod, total, width]
    rfl
  have one : (1 : UInt64).toNat = 1 := rfl
  have zero : (0 : UInt64).toNat = 0 := rfl
  rw [← UInt64.toNat_inj, SearchView.maxPages, ten]
  simp only [rest]
  rw [UInt64.toNat_add, UInt64.toNat_div, total, width, UInt64.toNat_ofNat']
  split
  · rw [one]
    omega
  · rw [zero]
    omega

section Pages

variable (site rows) (input queryStr : Str) (filtered : List RankedResult) (verbose : Bool)

/-- The page `i + 1` of a search. -/
def SearchSite.pageView (i : Nat) : SearchView where
  searchResult := site.present rows queryStr ((filtered.drop (10 * i)).take 10)
  title := sanitizeGemini site.replaceAll input ++ lit " - TLGS Search"
  verbose
  encodedSearchTerm := urlEncode input
  totalResults := filtered.length
  currentPageIdx := UInt64.ofNat i
  itemPerPage := itemPerPage
  searchQuery := input

variable {site rows input queryStr filtered verbose}

theorem alone_of_page {req : SearchRequest} {filter : SearchFilter} {i : Nat}
    (parsed : site.parseRequest input = some (queryStr, filter))
    (found : filtered = site.computed queryStr filter) (fits : site.Fits filtered)
    (asks : Asks site req input verbose (UInt64.ofNat (i + 1)))
    (within : 10 * i ≤ filtered.length) :
    site.alone rows req = .ok (.view (site.pageView rows input queryStr filtered verbose i)) := by
  subst found
  have slice := pageSlice_of_requested asks.page within fits
  have shifted : UInt64.ofNat (i + 1) - 1 = UInt64.ofNat i := by
    rw [UInt64.ofNat_add]
    exact UInt64.add_sub_cancel ..
  rw [← asks.input] at parsed
  rw [alone_of_slice parsed slice]
  simp only [SearchSite.data, SearchSite.pageView, asks.input, asks.verbose, asks.page, shifted]

/-- The link to the next page, where there is one. -/
theorem nextTarget_pageView {i : Nat} (fits : site.Fits filtered)
    (within : 10 * i ≤ filtered.length) :
    (site.pageView rows input queryStr filtered verbose i).nextTarget =
      if i + 1 = (filtered.length + 9) / 10 then none
      else some ((site.pageView rows input queryStr filtered verbose i).pageTarget verbose
        (UInt64.ofNat (i + 2))) := by
  have last : (site.pageView rows input queryStr filtered verbose i).maxPages =
      UInt64.ofNat ((filtered.length + 9) / 10) := maxPages_eq rfl fits.length_lt
  have current : (site.pageView rows input queryStr filtered verbose i).currentPage =
      UInt64.ofNat (i + 1) :=
    (UInt64.ofNat_add ..).symm
  have next : UInt64.ofNat (i + 1) + 1 = UInt64.ofNat (i + 2) := (UInt64.ofNat_add ..).symm
  have same : UInt64.ofNat (i + 1) = UInt64.ofNat ((filtered.length + 9) / 10) ↔
      i + 1 = (filtered.length + 9) / 10 := by
    have bounded := fits.length_lt
    rw [← UInt64.toNat_inj, UInt64.toNat_ofNat', UInt64.toNat_ofNat']
    omega
  rw [SearchView.nextTarget, last, current, next]
  simp only [ne_eq, same, ite_not]
  rfl

/-- From a page on, the walk shows one page after the other, until the results are at an end or a
page shows nothing. -/
theorem walk_eq (decodes : DecodesForms site.urlDecode) {filter : SearchFilter}
    (parsed : site.parseRequest input = some (queryStr, filter))
    (found : filtered = site.computed queryStr filter) (fits : site.Fits filtered) (pages : Nat)
    {i : Nat} {req : SearchRequest} (asks : Asks site req input verbose (UInt64.ofNat (i + 1)))
    (within : 10 * i ≤ filtered.length) :
    ∃ count, site.walk rows pages req =
        (List.range' i count).map (site.pageView rows input queryStr filtered verbose) ∧
      (0 < pages → 0 < count) ∧
      (count = pages ∨ filtered.length ≤ 10 * (i + count) ∨
        (site.pageView rows input queryStr filtered verbose (i + count - 1)).searchResult =
          []) := by
  induction pages generalizing i req with
  | zero => exact ⟨0, rfl, nofun, .inl rfl⟩
  | succ pages ih =>
    rw [SearchSite.walk, alone_of_page parsed found fits asks within]
    by_cases nothing : (site.pageView rows input queryStr filtered verbose i).searchResult = []
    · simp only [if_pos nothing]
      exact ⟨1, rfl, fun _ => Nat.one_pos, .inr (.inr nothing)⟩
    · -- something is shown, so that the page is not behind the last one
      have inside : 10 * i < filtered.length := by
        refine Nat.lt_of_not_le fun outside => nothing ?_
        rw [SearchSite.pageView, List.drop_of_length_le outside]
        rfl
      simp only [if_neg nothing, nextTarget_pageView fits within]
      by_cases last : i + 1 = (filtered.length + 9) / 10
      · simp only [if_pos last]
        exact ⟨1, rfl, fun _ => Nat.one_pos, .inr (.inl (by omega))⟩
      · simp only [if_neg last]
        have next : Asks site (follow
            ((site.pageView rows input queryStr filtered verbose i).pageTarget verbose
            (UInt64.ofNat (i + 2)))) input verbose (UInt64.ofNat (i + 2)) :=
              asks_page decodes rfl verbose _
        obtain ⟨count, seen, _, ended⟩ := ih next (by omega)
        refine ⟨count + 1, ?_, fun _ => Nat.succ_pos _, ?_⟩
        · rw [seen]
          rfl
        · have sum : i + (count + 1) = i + 1 + count := by omega
          rw [sum]
          exact ended.imp_left (congrArg Nat.succ)

theorem present_windows (count : Nat) : ((List.range count).map
    (site.pageView rows input queryStr filtered verbose)).flatMap SearchView.searchResult =
      site.present rows queryStr (filtered.take (10 * count)) := by
  rw [List.flatMap_map, ← flatMap_windows, SearchSite.present, List.filterMap_flatMap]
  rfl

variable (site) in
theorem present_of_rows {items : List RankedResult}
    (every : ∀ item ∈ items, 39 ∉ item.url ∧ (rows.row queryStr item.url).isSome) :
    (site.present rows queryStr items).map SearchResult.url = items.map RankedResult.url := by
  induction items with
  | nil => rfl
  | cons item items ih =>
    rw [List.forall_mem_cons] at every
    obtain ⟨⟨unquoted, row⟩, rest⟩ := every
    obtain ⟨page, row⟩ := Option.isSome_iff_exists.mp row
    have shown : (if 39 ∈ item.url then none else
        (rows.row queryStr item.url).map (site.searchResult item)) =
          some (site.searchResult item page) := by
      rw [if_neg unquoted, row]
      rfl
    have head : site.present rows queryStr (item :: items) =
        site.searchResult item page :: site.present rows queryStr items :=
          List.filterMap_cons_some shown
    rw [head, List.map_cons, List.map_cons, ih rest]
    rfl

/-- The link to the next page, followed from the first page on: as many pages are seen as there are,
or up to one that shows nothing. They show the results in the order of their rank, each once, with
the rows that there are; when every result has a row, all of them. -/
theorem walk_shows (decodes : DecodesForms site.urlDecode) {req : SearchRequest} {queryStr : Str}
    {filter : SearchFilter}
    (parsed : site.parseRequest (site.urlDecode req.query) = some (queryStr, filter))
    (first : requestedPage (fileName req.path) = 1)
    (fits : site.Fits (site.computed queryStr filter)) {pages : Nat} (some_page : 0 < pages)
    (enough : (site.computed queryStr filter).length ≤ 10 * pages) :
    ∃ count, 0 < count ∧
      site.walk rows pages req = (List.range count).map
        (site.pageView rows (site.urlDecode req.query) queryStr
        (site.computed queryStr filter) (startsWith req.path (lit "/v/search"))) ∧
      (site.walk rows pages req).flatMap SearchView.searchResult =
        site.present rows queryStr ((site.computed queryStr filter).take (10 * count)) ∧
      ((site.computed queryStr filter).length ≤ 10 * count ∨
        ∃ view ∈ (site.walk rows pages req).getLast?, view.searchResult = []) ∧
      ((∀ item ∈ site.computed queryStr filter, 39 ∉ item.url ∧
        (rows.row queryStr item.url).isSome) →
        ((site.walk rows pages req).flatMap SearchView.searchResult).map SearchResult.url =
          (site.computed queryStr filter).map RankedResult.url) := by
  have asks : Asks site req (site.urlDecode req.query) (startsWith req.path (lit "/v/search"))
      (UInt64.ofNat (0 + 1)) :=
    ⟨rfl, rfl, first⟩
  obtain ⟨count, seen, positive, ended⟩ :=
    walk_eq decodes parsed rfl fits pages asks (Nat.zero_le _)
  have some_seen := positive some_page
  rw [← List.range_eq_range'] at seen
  rw [Nat.zero_add] at ended
  refine ⟨count, some_seen, seen, ?_, ?_, fun every => ?_⟩
  · rw [seen, present_windows]
  · rcases ended with all | behind | nothing
    · exact .inl (all ▸ enough)
    · exact .inl behind
    · refine .inr ⟨_, ?_, nothing⟩
      rw [seen, List.getLast?_map, List.getLast?_range, if_neg (by omega)]
      rfl
  · have whole : (site.computed queryStr filter).length ≤ 10 * count := by
      rcases ended with all | behind | nothing
      · exact all ▸ enough
      · exact behind
      · -- a page with a result on it would show that
        have shown : (site.present rows queryStr
            (((site.computed queryStr filter).drop (10 * (count - 1))).take 10)).map
              SearchResult.url = _ :=
          present_of_rows site fun item member =>
            every item (List.mem_of_mem_drop (List.mem_of_mem_take member))
        have window : ((site.computed queryStr filter).drop (10 * (count - 1))).take 10 = [] :=
          List.map_eq_nil_iff.mp (shown.symm.trans (congrArg (List.map SearchResult.url) nothing))
        rw [List.take_eq_nil_iff, List.drop_eq_nil_iff] at window
        omega
    rw [seen, present_windows, List.take_of_length_le whole, present_of_rows site every]

end Pages

/-- A server that finds twelve pages, each of which has a row. -/
def SearchSite.twelve : SearchSite where
  toServer := { Server.smallServer (fun _ => 0) (fun _ => 0) 0 with
    pageSearch := fun _ => (List.range 12).map fun n =>
      ⟨lit "gemini://h/" ++ decimal n, lit "text/gemini", 4, UInt64.ofNat n, 1⟩ }
  replaceAll := Bytes.replaceAll
  urlDecode := decode
  formatDate date := date
  address _ := 93824992231424

def Rows.every : Rows where
  row _ url := some ⟨url, 4, lit "A", lit "text/gemini", lit "a", lit ""⟩
  keyed _ url page found := by grind

theorem walk_shows_twelve :
    let site := SearchSite.twelve
    let req : SearchRequest := ⟨lit "/search", lit "x"⟩
    (site.walk Rows.every 2 req).map SearchView.nextTarget = [some (lit "/search/2?x"), none] ∧
      ((site.walk Rows.every 2 req).map fun view => view.searchResult.length) = [10, 2] ∧
    ∃ count, 0 < count ∧
      site.walk Rows.every 2 req = (List.range count).map
        (site.pageView Rows.every (site.urlDecode req.query)
        (lit "x") (site.computed (lit "x") {}) (startsWith req.path (lit "/v/search"))) ∧
      (site.walk Rows.every 2 req).flatMap SearchView.searchResult =
        site.present Rows.every (lit "x") ((site.computed (lit "x") {}).take (10 * count)) ∧
      ((site.computed (lit "x") {}).length ≤ 10 * count ∨
        ∃ view ∈ (site.walk Rows.every 2 req).getLast?, view.searchResult = []) ∧
      ((∀ item ∈ site.computed (lit "x") {},
          39 ∉ item.url ∧ (Rows.every.row (lit "x") item.url).isSome) →
        ((site.walk Rows.every 2 req).flatMap SearchView.searchResult).map SearchResult.url =
          (site.computed (lit "x") {}).map RankedResult.url) := by
  refine ⟨?_, ?_, walk_shows (fun _ _ => rfl) rfl (by decide) ?_ (by decide) ?_⟩
  · decide +kernel
  · decide +kernel
  · decide +kernel
  · decide +kernel

end Tlgs
