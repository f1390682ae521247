import Tlgs.Search.Query

/-!
# The search cache

`tlgs_search` keeps two kinds of lists in one map: the ranked pages of a query text, and
those of them that pass a filter. The keys consist of the query text, a hash of it, and
for filtered lists the exclusive or of the hashes of the filter's constraints. Requests
are within the lifetime of the entries, so nothing is removed.
-/
namespace Tlgs

open Bytes

/-- What does not change from one request to the next: the hash functions of the standard library,
the random number chosen at the start, the search over the database, splitting a text, and the
conversion of size limits. -/
structure Server where
  hashString : Str → UInt64
  hashSize : UInt64 → UInt64
  fixedRandom : UInt64
  pageSearch : Str → List RankedResult
  splitString : Str → Str → List Str
  sizeLimit : Str → UInt64 → Option UInt64

abbrev Cache := Str → Option (List RankedResult)

namespace Server

variable (server : Server)

def hashConstrant (fc : FilterConstrant) : UInt64 :=
  server.hashString fc.value + (if fc.negate then 1 else 0)

def hashSizeConstrant (sc : SizeConstrant) : UInt64 :=
  server.hashSize sc.size + (if sc.greater then 1 else 0)

/-- `std::hash<SearchFilter>`. -/
def hashFilter (sf : SearchFilter) : UInt64 :=
  let hash := 0
  let hash := sf.contentType.foldl (fun hash fc => hash ^^^ server.hashConstrant fc) hash
  let hash := sf.domain.foldl (fun hash dc => hash ^^^ server.hashConstrant dc) hash
  let hash := sf.size.foldl (fun hash sc => hash ^^^ server.hashSizeConstrant sc) hash
  sf.title.foldl (fun hash tc => hash ^^^ server.hashConstrant tc) hash

/-- `prefix + "|" + std::to_string(hash)`. -/
def keyed (text : Str) (hash : UInt64) : Str := text ++ 124 :: decimal hash.toNat

def rawResultCacheKey (queryStr : Str) : Str :=
  keyed queryStr (server.hashString queryStr ^^^ server.fixedRandom)

def filteredResultCacheKey (queryStr : Str) (filter : SearchFilter) : Str :=
  keyed (server.rawResultCacheKey queryStr) (server.hashFilter filter ^^^ server.fixedRandom)

/-- The query text and the filter of a request; `none` when the request ends before the
cache is used, because of an exception or an empty text. -/
def parseRequest (input : Str) : Option (Str × SearchFilter) :=
  match parseSearchQuery server.splitString server.sizeLimit input with
  | none => none
  | some (queryStr, filter) =>
    if queryStr.map tolower = [] then none else some (queryStr.map tolower, filter)

def insert (cache : Cache) (key : Str) (value : List RankedResult) : Cache :=
  fun k => if k = key then some value else cache k

/-- The ranked pages of a query text. -/
def rankedResult (cache : Cache) (queryStr : Str) : Cache × List RankedResult :=
  match cache (server.rawResultCacheKey queryStr) with
  | some ranked => (cache, ranked)
  | none =>
    let ranked := server.pageSearch queryStr
    (insert cache (server.rawResultCacheKey queryStr) ranked, ranked)

def filteredResult (cache : Cache) (queryStr : Str) (filter : SearchFilter) :
    Cache × List RankedResult :=
  match cache (server.filteredResultCacheKey queryStr filter) with
  | some filtered => (cache, filtered)
  | none =>
    let (cache, ranked) := server.rankedResult cache queryStr
    let filtered := filterResults filter ranked
    (insert cache (server.filteredResultCacheKey queryStr filter) filtered, filtered)

/-- One request: the cache after it and the list it uses. -/
def search (cache : Cache) (input : Str) : Cache × Option (List RankedResult) :=
  match server.parseRequest input with
  | none => (cache, none)
  | some (queryStr, filter) =>
    let (cache, filtered) := server.filteredResult cache queryStr filter
    (cache, some filtered)

def emptyCache : Cache := fun _ => none

/-- The lists that a sequence of requests uses. -/
def searchAll (cache : Cache) : List Str → List (Option (List RankedResult))
  | [] => []
  | input :: inputs =>
    let (cache, used) := server.search cache input
    used :: searchAll cache inputs

/-- The list a request computes with an empty cache. -/
def cold (input : Str) : Option (List RankedResult) :=
  (server.search emptyCache input).2

/-! ### Keys -/

private theorem bar_not_mem_decimal (n : Nat) : (124 : UInt8) ∉ decimal n :=
  fun member => absurd (isdigit_of_mem_decimal member) (by decide)

private theorem keyed_split {rest : Str} {hash hash' : UInt64}
    (equal : 124 :: decimal hash.toNat = rest ++ 124 :: decimal hash'.toNat) :
    rest = [] ∧ hash = hash' := by
  cases rest with
  | nil => exact ⟨rfl, UInt64.toNat_inj.mp (decimal_injective (List.cons.inj equal).2)⟩
  | cons c rest =>
    have inside : decimal hash.toNat = rest ++ 124 :: decimal hash'.toNat := (List.cons.inj equal).2
    refine absurd ?_ (bar_not_mem_decimal hash.toNat)
    rw [inside]
    exact List.mem_append_right _ (List.mem_cons_self ..)

/-- The hash is what follows the last bar, so a key determines its text and its hash. -/
theorem keyed_inj {text text' : Str} {hash hash' : UInt64}
    (equal : keyed text hash = keyed text' hash') : text = text' ∧ hash = hash' := by
  -- one text is a prefix of the other, and no bar is left for the rest
  rcases List.append_eq_append_iff.mp equal with ⟨rest, rfl, tail⟩ | ⟨rest, rfl, tail⟩
  · obtain ⟨rfl, same⟩ := keyed_split tail
    exact ⟨(List.append_nil _).symm, same⟩
  · obtain ⟨rfl, same⟩ := keyed_split tail
    exact ⟨List.append_nil _, same.symm⟩

theorem rawResultCacheKey_inj {queryStr queryStr' : Str}
    (equal : server.rawResultCacheKey queryStr = server.rawResultCacheKey queryStr') :
    queryStr = queryStr' :=
  (keyed_inj equal).1

private theorem xor_right_cancel {a b c : UInt64} (equal : a ^^^ c = b ^^^ c) : a = b := by
  have twice := congrArg (· ^^^ c) equal
  simpa only [UInt64.xor_assoc, UInt64.xor_self, UInt64.xor_zero] using twice

theorem filteredResultCacheKey_eq_iff {queryStr queryStr' : Str} {filter filter' : SearchFilter} :
    server.filteredResultCacheKey queryStr filter =
      server.filteredResultCacheKey queryStr' filter' ↔
      queryStr = queryStr' ∧ server.hashFilter filter = server.hashFilter filter' := by
  constructor
  · intro equal
    obtain ⟨raw, hash⟩ := keyed_inj equal
    exact ⟨server.rawResultCacheKey_inj raw, xor_right_cancel hash⟩
  · rintro ⟨rfl, hash⟩
    rw [filteredResultCacheKey, filteredResultCacheKey, hash]

/-- A raw key is a filtered key when the query text is the raw key of the other request. -/
theorem raw_eq_filtered_iff {queryStr queryStr' : Str} {filter' : SearchFilter} :
    server.rawResultCacheKey queryStr = server.filteredResultCacheKey queryStr' filter' ↔
      queryStr = server.rawResultCacheKey queryStr' ∧
        server.hashString queryStr = server.hashFilter filter' := by
  constructor
  · intro equal
    obtain ⟨text, hash⟩ := keyed_inj equal
    exact ⟨text, xor_right_cancel hash⟩
  · rintro ⟨text, hash⟩
    rw [rawResultCacheKey, hash, text, filteredResultCacheKey]

theorem raw_ne_filtered (queryStr : Str) (filter : SearchFilter) :
    server.rawResultCacheKey queryStr ≠ server.filteredResultCacheKey queryStr filter := by
  intro equal
  have longer := congrArg List.length (server.raw_eq_filtered_iff.mp equal).1
  rw [rawResultCacheKey, keyed, List.length_append, List.length_cons] at longer
  omega

/-! ### One request -/

/-- The list a request would compute without a cache. -/
def computed (queryStr : Str) (filter : SearchFilter) : List RankedResult :=
  filterResults filter (server.pageSearch queryStr)

/-- What the requests `asked` can have put under a key. -/
def Meaning (asked : Str × SearchFilter → Prop) (key : Str) (value : List RankedResult) : Prop :=
  ∃ request, asked request ∧
    ((key = server.rawResultCacheKey request.1 ∧ value = server.pageSearch request.1) ∨
      (key = server.filteredResultCacheKey request.1 request.2 ∧
        value = server.computed request.1 request.2))

def Sound (asked : Str × SearchFilter → Prop) (cache : Cache) : Prop :=
  ∀ key value, cache key = some value → server.Meaning asked key value

/-- Two requests do not disturb each other: equal keys stand for equal lists. -/
def Agree (first second : Str × SearchFilter) : Prop :=
  (first.1 = second.1 → server.hashFilter first.2 = server.hashFilter second.2 →
    server.computed first.1 first.2 = server.computed second.1 second.2) ∧
  (first.1 = server.rawResultCacheKey second.1 →
    server.hashString first.1 = server.hashFilter second.2 →
    server.pageSearch first.1 = server.computed second.1 second.2)

variable {server} {asked : Str × SearchFilter → Prop} {cache : Cache}

theorem insert_self (cache : Cache) (key : Str) (value : List RankedResult) :
    insert cache key value key = some value :=
  if_pos rfl

theorem insert_of_ne {key key' : Str} {value : List RankedResult} (different : key' ≠ key) :
    insert cache key value key' = cache key' :=
  if_neg different

theorem sound_insert {key : Str} {value : List RankedResult} (sound : server.Sound asked cache)
    (meaning : server.Meaning asked key value) : server.Sound asked (insert cache key value) := by
  intro k v stored
  simp only [insert] at stored
  split at stored
  next same =>
    cases stored
    rw [same]
    exact meaning
  · exact sound k v stored

/-- Under one filtered key there is only the list its own request computes. -/
theorem filtered_meaning (agree : ∀ a b, asked a → asked b → server.Agree a b)
    {request : Str × SearchFilter} (own : asked request) {value : List RankedResult}
    (meaning : server.Meaning asked (server.filteredResultCacheKey request.1 request.2) value) :
    value = server.computed request.1 request.2 := by
  -- the key may have been stored as a raw one or as a filtered one
  obtain ⟨other, member, ⟨key, rfl⟩ | ⟨key, rfl⟩⟩ := meaning
  · obtain ⟨text, hash⟩ := server.raw_eq_filtered_iff.mp key.symm
    exact (agree other request member own).2 text hash
  · obtain ⟨text, hash⟩ := server.filteredResultCacheKey_eq_iff.mp key
    exact ((agree request other own member).1 text hash).symm

theorem raw_meaning (agree : ∀ a b, asked a → asked b → server.Agree a b)
    {request : Str × SearchFilter} (own : asked request) {value : List RankedResult}
    (meaning : server.Meaning asked (server.rawResultCacheKey request.1) value) :
    value = server.pageSearch request.1 := by
  obtain ⟨other, member, ⟨key, rfl⟩ | ⟨key, rfl⟩⟩ := meaning
  · rw [server.rawResultCacheKey_inj key]
  · obtain ⟨text, hash⟩ := server.raw_eq_filtered_iff.mp key
    exact ((agree request other own member).2 text hash).symm

theorem rankedResult_sound (agree : ∀ a b, asked a → asked b → server.Agree a b)
    (sound : server.Sound asked cache) {request : Str × SearchFilter} (own : asked request) :
    server.Sound asked (server.rankedResult cache request.1).1 ∧
      (server.rankedResult cache request.1).2 = server.pageSearch request.1 := by
  simp only [rankedResult]
  split
  next ranked stored => exact ⟨sound, raw_meaning agree own (sound _ _ stored)⟩
  · exact ⟨sound_insert sound ⟨request, own, .inl ⟨rfl, rfl⟩⟩, rfl⟩

theorem filteredResult_sound (agree : ∀ a b, asked a → asked b → server.Agree a b)
    (sound : server.Sound asked cache) {request : Str × SearchFilter} (own : asked request) :
    server.Sound asked (server.filteredResult cache request.1 request.2).1 ∧
      (server.filteredResult cache request.1 request.2).2 =
        server.computed request.1 request.2 := by
  simp only [filteredResult]
  split
  next filtered stored => exact ⟨sound, filtered_meaning agree own (sound _ _ stored)⟩
  · obtain ⟨sound', ranked⟩ := rankedResult_sound agree sound own
    refine ⟨sound_insert sound' ⟨request, own, .inr ⟨rfl, ?_⟩⟩, ?_⟩ <;>
      simp only [ranked, computed]

/-! ### Sequences of requests -/

/-- The parsed requests among the inputs of a kind. -/
def Asked (server : Server) (kind : Str → Prop) (request : Str × SearchFilter) : Prop :=
  ∃ input, kind input ∧ server.parseRequest input = some request

theorem filteredResult_emptyCache (queryStr : Str) (filter : SearchFilter) :
    server.filteredResult emptyCache queryStr filter =
      (insert (insert emptyCache (server.rawResultCacheKey queryStr) (server.pageSearch queryStr))
          (server.filteredResultCacheKey queryStr filter) (server.computed queryStr filter),
        server.computed queryStr filter) := rfl

/-- With an empty cache a request computes its own list. -/
theorem cold_eq (input : Str) :
    server.cold input = (server.parseRequest input).map fun request =>
      server.computed request.1 request.2 := by
  simp only [cold, search]
  cases server.parseRequest input with
  | none => rfl
  | some request => rfl

theorem search_sound {kind : Str → Prop} {input : Str}
    (agree : ∀ a b, server.Asked kind a → server.Asked kind b → server.Agree a b)
    (sound : server.Sound (server.Asked kind) cache) (member : kind input) :
    server.Sound (server.Asked kind) (server.search cache input).1 ∧
      (server.search cache input).2 = server.cold input := by
  rw [cold_eq]
  simp only [search]
  cases parsed : server.parseRequest input with
  | none => exact ⟨sound, rfl⟩
  | some request =>
    obtain ⟨sound', used⟩ := filteredResult_sound agree sound ⟨input, member, parsed⟩
    exact ⟨sound', congrArg some used⟩

theorem searchAll_eq_cold {kind : Str → Prop} {inputs : List Str}
    (agree : ∀ a b, server.Asked kind a → server.Asked kind b → server.Agree a b)
    (sound : server.Sound (server.Asked kind) cache) (members : ∀ input ∈ inputs, kind input) :
    server.searchAll cache inputs = inputs.map server.cold := by
  induction inputs generalizing cache with
  | nil => rfl
  | cons input inputs ih =>
    obtain ⟨sound', used⟩ := search_sound agree sound (members input (List.mem_cons_self ..))
    have first : server.searchAll cache (input :: inputs) =
        (server.search cache input).2 :: server.searchAll (server.search cache input).1 inputs :=
          rfl
    rw [first, used, List.map_cons,
      ih sound' (fun later member => members later (List.mem_cons_of_mem _ member))]

/-- Two requests, one after the other, and the second answered from what the first
left under its key. -/
private theorem second_of_stored {first second : Str} {request request' : Str × SearchFilter}
    {stored : List RankedResult}
    (run : server.searchAll emptyCache [first, second] = [first, second].map server.cold)
    (parsed : server.parseRequest first = some request)
    (parsed' : server.parseRequest second = some request')
    (left : (server.filteredResult emptyCache request.1 request.2).1
      (server.filteredResultCacheKey request'.1 request'.2) = some stored) :
    stored = server.computed request'.1 request'.2 := by
  have found : server.filteredResult (server.filteredResult emptyCache request.1 request.2).1
      request'.1 request'.2 =
        ((server.filteredResult emptyCache request.1 request.2).1, stored) := by
    rw [filteredResult, left]
  simp only [searchAll, List.map_cons, List.map_nil, search, parsed, parsed', found, cold_eq,
    Option.map_some, List.cons.injEq, Option.some.injEq, and_true] at run
  exact run.2

/-- Two requests that use the lists of an empty cache do not disturb each other. -/
theorem agree_of_run {first second : Str} {request request' : Str × SearchFilter}
    (run : server.searchAll emptyCache [first, second] = [first, second].map server.cold)
    (parsed : server.parseRequest first = some request)
    (parsed' : server.parseRequest second = some request') : server.Agree request request' := by
  constructor
  · intro text hash
    refine second_of_stored run parsed parsed' ?_
    have same := server.filteredResultCacheKey_eq_iff.mpr ⟨text, hash⟩
    rw [filteredResult_emptyCache, ← same]
    exact insert_self _ _ _
  · intro text hash
    refine second_of_stored run parsed parsed' ?_
    have same := server.raw_eq_filtered_iff.mpr ⟨text, hash⟩
    -- the raw list of the first request lies below its filtered one
    rw [filteredResult_emptyCache, ← same]
    exact (insert_of_ne (server.raw_ne_filtered _ _)).trans (insert_self _ _ _)

/-- All sequences of requests of some kind use the lists they would compute with an empty
cache exactly when no two requests of the kind disturb each other: requests with one
query text and one combined filter hash keep the same pages, and where a query text is
the raw key of another request and its hash that request's filter hash, the pages of
the text are the filtered pages of the other. -/
theorem searches_transparent_iff (server : Server) (kind : Str → Prop) :
    (∀ inputs, (∀ input ∈ inputs, kind input) →
      server.searchAll emptyCache inputs = inputs.map server.cold) ↔
    ∀ first second, server.Asked kind first → server.Asked kind second →
      server.Agree first second := by
  constructor
  · rintro transparent request request' ⟨first, member, parsed⟩ ⟨second, member', parsed'⟩
    refine agree_of_run (transparent [first, second] fun input listed => ?_) parsed parsed'
    rcases List.mem_cons.mp listed with rfl | listed
    · exact member
    · rwa [List.mem_singleton.mp listed]
  · intro agree inputs members
    refine searchAll_eq_cold agree ?_ members
    intro key value stored
    cases stored

def twoPages : List RankedResult :=
  [⟨lit "gemini://a/", lit "text/gemini", 4, 1, 1⟩, ⟨lit "gemini://b/", lit "text/gemini", 4, 2, 1⟩]

/-- A server that finds two pages. -/
def smallServer (hashString : Str → UInt64) (hashSize : UInt64 → UInt64) (fixedRandom : UInt64) :
    Server where
  hashString
  hashSize
  fixedRandom
  pageSearch _ := twoPages
  splitString := Bytes.splitString
  sizeLimit _ unit := some unit

def repeatedConstraint : SearchFilter := { domain := [⟨lit "a", false⟩, ⟨lit "a", false⟩] }

theorem hashFilter_repeatedConstraint (server : Server) :
    server.hashFilter repeatedConstraint = server.hashFilter {} := by
  simp [hashFilter, repeatedConstraint]

/-- Whatever the hash functions are, the hashes of a repeated constraint cancel out, and
the list it selected is served to the query without a filter. -/
theorem repeated_constraint_cancels :
    ∃ inputs, inputs = [lit "x domain:a domain:a", lit "x"] ∧
      ∀ hashString hashSize fixedRandom,
        let server := smallServer hashString hashSize fixedRandom
        server.searchAll emptyCache inputs ≠ inputs.map server.cold := by
  refine ⟨_, rfl, fun hashString hashSize fixedRandom run => ?_⟩
  have agree : (smallServer hashString hashSize fixedRandom).Agree
      (lit "x", repeatedConstraint) (lit "x", {}) := agree_of_run run rfl rfl
  have same : filterResults repeatedConstraint twoPages = filterResults {} twoPages :=
    agree.1 rfl (hashFilter_repeatedConstraint _)
  exact absurd same (by decide)

end Server

end Tlgs
