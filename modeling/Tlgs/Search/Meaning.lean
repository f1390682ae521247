import Tlgs.Search.Query

/-!
# What a query keeps

The filters of a query as its words state them, and which of the ranked pages they are
documented to keep. The parser lists exactly these filters; the evaluation keeps another
set of pages where it takes a title for a content type or a limit for its other side.
-/
namespace Tlgs

open Bytes

/-! ### The filters that the words state -/

inductive FilterKind
  | contentType
  | domain
  | size
  | intitle
  deriving DecidableEq, Repr

inductive Criterion
  | contentType (value : Str)
  | domain (value : Str)
  | size (greater : Bool) (limit : UInt64)
  | intitle (value : Str)
  deriving DecidableEq, Repr

def Criterion.kind : Criterion → FilterKind
  | .contentType _ => .contentType
  | .domain _ => .domain
  | .size _ _ => .size
  | .intitle _ => .intitle

structure QueryFilter where
  criterion : Criterion
  negated : Bool
  deriving DecidableEq, Repr

def QueryFilter.kind (f : QueryFilter) : FilterKind := f.criterion.kind

section Words

variable (sizeLimit : Str → UInt64 → Option UInt64)

/-- The side, the number and the unit of a well-formed size. -/
def sizeParts (value : Str) : Option (Bool × Str × UInt64) :=
  (matchSize value).bind fun (greater, number, unit) =>
    (parseSizeUnits unit).map fun unit => (greater, number, unit)

/-- What a key and a value ask for; nothing if the size is malformed. -/
def criterionOf (key value : Str) : Option Criterion :=
  if key = lit "content_type" then some (.contentType value)
  else if key = lit "domain" then some (.domain value)
  else if key = lit "intitle" then some (.intitle value)
  else if key = lit "size" then
    (sizeParts value).bind fun (greater, number, unit) =>
      (sizeLimit number unit).map fun limit => .size greater limit
  else none

/-- A size of which `std::stod` cannot read the number. -/
def Unreadable (key value : Str) : Prop :=
  key = lit "size" ∧ ∃ greater number unit,
    sizeParts value = some (greater, number, unit) ∧ sizeLimit number unit = none

/-- The key and value of a filter word. -/
def filterWord (word : Str) : Option (Str × Str) :=
  if tokenType word = .filter then splitColon word else none

/-- The filters of some words, where `negated` says whether a NOT stands before the first. -/
def filtersFrom : Bool → List Str → List QueryFilter
  | _, [] => []
  | negated, word :: words =>
    ((filterWord word).bind fun parts => criterionOf sizeLimit parts.1 parts.2).toList.map
        (fun criterion => ⟨criterion, negated⟩) ++
      filtersFrom (tokenType word = .logical) words

def queryFilters (query : Str) : List QueryFilter := filtersFrom sizeLimit false (splitWords query)

/-- The parser leaves with an exception at such a word. -/
def StopsAt (word : Str) : Prop :=
  ∃ key value, filterWord word = some (key, value) ∧ Unreadable sizeLimit key value

end Words

/-! ### What the parser lists -/

def QueryFilter.asContentType : QueryFilter → Option FilterConstrant
  | ⟨.contentType value, negated⟩ => some ⟨value, negated⟩
  | _ => none

def QueryFilter.asDomain : QueryFilter → Option FilterConstrant
  | ⟨.domain value, negated⟩ => some ⟨value, negated⟩
  | _ => none

/-- A negated size is listed with its side turned. -/
def QueryFilter.asSize : QueryFilter → Option SizeConstrant
  | ⟨.size greater limit, negated⟩ => some ⟨limit, negated ^^ greater⟩
  | _ => none

def QueryFilter.asTitle : QueryFilter → Option FilterConstrant
  | ⟨.intitle value, negated⟩ => some ⟨value, negated⟩
  | _ => none

/-- The filters in the lists of the parser. -/
def listed (filters : List QueryFilter) : SearchFilter where
  contentType := filters.filterMap QueryFilter.asContentType
  domain := filters.filterMap QueryFilter.asDomain
  size := filters.filterMap QueryFilter.asSize
  title := filters.filterMap QueryFilter.asTitle

def SearchFilter.append (a b : SearchFilter) : SearchFilter where
  contentType := a.contentType ++ b.contentType
  domain := a.domain ++ b.domain
  size := a.size ++ b.size
  title := a.title ++ b.title

theorem SearchFilter.append_assoc (a b c : SearchFilter) :
    (a.append b).append c = a.append (b.append c) := by
  simp [SearchFilter.append]

theorem SearchFilter.append_nil (a : SearchFilter) : a.append (listed []) = a := by
  simp [SearchFilter.append, listed]

theorem SearchFilter.nil_append (a : SearchFilter) : SearchFilter.append {} a = a := rfl

theorem listed_append (filters filters' : List QueryFilter) :
    listed (filters ++ filters') = (listed filters).append (listed filters') := by
  simp [listed, SearchFilter.append]

@[simp] theorem listed_contentType (value : Str) (negated : Bool) :
    listed [⟨.contentType value, negated⟩] = { contentType := [⟨value, negated⟩] } := rfl

@[simp] theorem listed_domain (value : Str) (negated : Bool) :
    listed [⟨.domain value, negated⟩] = { domain := [⟨value, negated⟩] } := rfl

@[simp] theorem listed_size (greater : Bool) (limit : UInt64) (negated : Bool) :
    listed [⟨.size greater limit, negated⟩] = { size := [⟨limit, negated ^^ greater⟩] } := rfl

@[simp] theorem listed_intitle (value : Str) (negated : Bool) :
    listed [⟨.intitle value, negated⟩] = { title := [⟨value, negated⟩] } := rfl

section Parse

variable {sizeLimit : Str → UInt64 → Option UInt64}

private theorem size_ne_others : lit "size" ≠ lit "content_type" ∧ lit "size" ≠ lit "domain" ∧
    lit "size" ≠ lit "intitle" := by decide

theorem criterionOf_size (value : Str) : criterionOf sizeLimit (lit "size") value =
    (sizeParts value).bind fun (greater, number, unit) =>
      (sizeLimit number unit).map fun limit => .size greater limit := by
  rw [criterionOf, if_neg size_ne_others.1, if_neg size_ne_others.2.1,
    if_neg size_ne_others.2.2, if_pos rfl]

private theorem addFilter_size (filter : SearchFilter) (negate : Bool) (value : Str) :
    addFilter sizeLimit filter negate (lit "size") value =
      match sizeParts value with
      | none => some filter
      | some (greater, number, unit) => (sizeLimit number unit).map fun size =>
        { filter with size := filter.size ++ [⟨size, negate ^^ greater⟩] } := by
  rw [addFilter, if_neg size_ne_others.1, if_neg size_ne_others.2.1,
    if_neg size_ne_others.2.2, if_pos rfl, sizeParts]
  cases matchSize value with
  | none => rfl
  | some parts =>
    obtain ⟨greater, number, unit⟩ := parts
    dsimp only [Option.bind_some]
    cases parseSizeUnits unit with
    | none => rfl
    | some unit => rfl

private theorem addFilter_unreadable {key value : Str}
    (unreadable : Unreadable sizeLimit key value) (filter : SearchFilter) (negate : Bool) :
    addFilter sizeLimit filter negate key value = none := by
  obtain ⟨rfl, greater, number, unit, parts, unread⟩ := unreadable
  rw [addFilter_size, parts]
  simp only [unread, Option.map_none]

/-- A word that can be read adds the filter that it states, if it states one. -/
private theorem addFilter_readable {key value : Str} (readable : ¬Unreadable sizeLimit key value)
    (filter : SearchFilter) (negate : Bool) :
    addFilter sizeLimit filter negate key value =
      some (filter.append
        (listed ((criterionOf sizeLimit key value).toList.map fun criterion =>
          ⟨criterion, negate⟩))) := by
  by_cases size : key = lit "size"
  · -- a malformed size adds nothing
    subst size
    rw [addFilter_size, criterionOf_size]
    cases parts : sizeParts value with
    | none => simp [SearchFilter.append_nil]
    | some parts' =>
      obtain ⟨greater, number, unit⟩ := parts'
      dsimp only [Option.bind_some]
      cases limit : sizeLimit number unit with
      | none => exact absurd ⟨rfl, greater, number, unit, parts, limit⟩ readable
      | some limit => simp [SearchFilter.append]
  · simp only [addFilter, criterionOf, size, if_false]
    split
    · simp [SearchFilter.append]
    · split
      · simp [SearchFilter.append]
      · split
        · simp [SearchFilter.append]
        · simp [SearchFilter.append_nil]

/-- Whether the word before negates the next one: the flag of the parser is up only in front of
a filter. -/
def FlagSays (negate before : Bool) (words : List Str) : Prop :=
  (words.head?.map tokenType = some .filter → negate = before) ∧
    (words.head?.map tokenType ≠ some .filter → negate = false)

private theorem flag_down (words : List Str) : FlagSays false false words :=
  ⟨fun _ => rfl, fun _ => rfl⟩

private theorem splitColon_of_filter {word : Str} (type : tokenType word = .filter) :
    ∃ key value, splitColon word = some (key, value) ∧ value ≠ [] := by
  rw [tokenType] at type
  split at type
  next key value parts =>
    split at type
    next both => exact ⟨key, value, parts, both.1⟩
    · split at type <;> cases type
  · split at type <;> cases type

private theorem not_stops_of_other {word : Str} (other : tokenType word ≠ .filter) :
    ¬StopsAt sizeLimit word := by
  rintro ⟨key, value, parts, _⟩
  rw [filterWord, if_neg other] at parts
  cases parts

private theorem filtersFrom_of_other {word : Str} (other : tokenType word ≠ .filter) (before : Bool)
    (words : List Str) : filtersFrom sizeLimit before (word :: words) =
      filtersFrom sizeLimit (tokenType word = .logical) words := by
  rw [filtersFrom, filterWord, if_neg other]
  rfl

variable (sizeLimit) in
/-- The parser lists the filters that the words state, unless one of the words stops it. -/
private theorem parseTokens_filters (words : List Str) {negate before : Bool}
    (flag : FlagSays negate before words) (searchQuery : Str) (filter : SearchFilter) :
    ((∃ word ∈ words, StopsAt sizeLimit word) →
        parseTokens sizeLimit words negate searchQuery filter = none) ∧
      ((∀ word ∈ words, ¬StopsAt sizeLimit word) →
        ∃ text, parseTokens sizeLimit words negate searchQuery filter =
          some (text, filter.append (listed (filtersFrom sizeLimit before words)))) := by
  induction words generalizing negate before searchQuery filter with
  | nil =>
    refine ⟨fun ⟨_, member, _⟩ => absurd member List.not_mem_nil, fun _ => ⟨searchQuery, ?_⟩⟩
    rw [filtersFrom, SearchFilter.append_nil]
    rfl
  | cons word words ih =>
    cases type : tokenType word with
    | text =>
      have other : tokenType word ≠ .filter := by simp [type]
      have down : negate = false := flag.2 (by simp [type])
      have tail := ih (flag_down words) (searchQuery ++ word ++ lit " ") filter
      simp only [parseTokens, type, List.mem_cons, exists_eq_or_imp, forall_eq_or_imp,
        not_stops_of_other other, false_or, not_false_eq_true, true_and, down]
      rw [filtersFrom_of_other other, type]
      exact tail
    | logical =>
      -- NOT is text unless a filter follows
      have other : tokenType word ≠ .filter := by simp [type]
      have down : negate = false := flag.2 (by simp [type])
      simp only [parseTokens, type, List.mem_cons, exists_eq_or_imp, forall_eq_or_imp,
        not_stops_of_other other, false_or, not_false_eq_true, true_and, down]
      rw [filtersFrom_of_other other, type]
      split
      next follows => exact ih ⟨fun _ => rfl, fun not => absurd follows not⟩ searchQuery filter
      next ends => exact ih ⟨fun follows => absurd follows ends, fun _ => rfl⟩ _ filter
    | filter =>
      -- the flag is taken down by every filter
      obtain ⟨key, value, parts, _⟩ := splitColon_of_filter type
      have isFilter : filterWord word = some (key, value) := by rw [filterWord, if_pos type, parts]
      have up : negate = before := flag.1 (by simp [type])
      subst up
      have stops : StopsAt sizeLimit word ↔ Unreadable sizeLimit key value := by
        constructor
        · rintro ⟨_, _, same, unreadable⟩
          cases isFilter.symm.trans same
          exact unreadable
        · exact fun unreadable => ⟨key, value, isFilter, unreadable⟩
      simp only [parseTokens, type, parts, List.mem_cons, exists_eq_or_imp, forall_eq_or_imp, stops]
      by_cases unreadable : Unreadable sizeLimit key value
      · rw [addFilter_unreadable unreadable]
        exact ⟨fun _ => rfl, fun readable => absurd unreadable readable.1⟩
      · rw [addFilter_readable unreadable, Option.bind_some, filtersFrom, isFilter, listed_append,
          ← SearchFilter.append_assoc, type]
        simp only [unreadable, false_or, not_false_eq_true, true_and]
        exact ih (flag_down words) searchQuery _

end Parse

/-! ### What a filter accepts -/

/-- The host of a ranked page. -/
def RankedResult.host (item : RankedResult) : Str := (Url.ofString 0 item.url).host

/-- What a filter asks of a page. A size of zero is not known. -/
def meets (item : RankedResult) (title : Str) : Criterion → Bool
  | .contentType value => value.isPrefixOf item.contentType
  | .domain value => item.host == value
  | .size greater limit =>
    item.size != 0 && if greater then decide (limit < item.size) else decide (item.size < limit)
  | .intitle value => contains value title

/-- NOT inverts the filter. What it makes of a size that is not known is left open. -/
def accepts (unknown : Bool) (item : RankedResult) (title : Str) (f : QueryFilter) : Bool :=
  if f.negated then
    if f.kind = .size ∧ item.size = 0 then unknown else !meets item title f.criterion
  else meets item title f.criterion

/-- If there are filters of a kind, one of them accepts the page. -/
def KindAccepts (unknown : Bool) (filters : List QueryFilter) (item : RankedResult) (title : Str)
    (kind : FilterKind) : Prop :=
  (∃ f ∈ filters, f.kind = kind) → ∃ f ∈ filters, f.kind = kind ∧
    accepts unknown item title f = true

instance (unknown : Bool) (filters : List QueryFilter) (item : RankedResult) (title : Str)
    (kind : FilterKind) : Decidable (KindAccepts unknown filters item title kind) :=
  inferInstanceAs (Decidable (_ → _))

/-- What a search keeps of the ranked pages: nothing if the query cannot be parsed. -/
def Keeps (splitString : Str → Str → List Str) (sizeLimit : Str → UInt64 → Option UInt64)
    (query : Str) (ranked : List RankedResult) (item : RankedResult) : Prop :=
  ∃ text filter, parseSearchQuery splitString sizeLimit query = some (text, filter) ∧
    item ∈ filterResults filter ranked

/-! ### Where the evaluation differs -/

/-- The size is strictly on the side that the filter lists, which NOT turns. -/
def StrictlyOn (item : RankedResult) (f : QueryFilter) : Prop :=
  ∃ constrant, f.asSize = some constrant ∧ item.size ≠ 0 ∧ sizeAccepts item.size constrant = true

/-- Only a NOT accepts the size, because it is not known or is the limit itself. -/
def SizeMisjudged (unknown : Bool) (filters : List QueryFilter) (item : RankedResult) : Prop :=
  (∃ greater limit, ⟨.size greater limit, true⟩ ∈ filters ∧
      (item.size = 0 ∧ unknown = true ∨ item.size ≠ 0 ∧ item.size = limit)) ∧
    ∀ f ∈ filters, ¬StrictlyOn item f

/-- What becomes of the titles asked for: nothing if nothing else is, and otherwise they are
looked for at the start of the content type. -/
def TakenForTypes (filters : List QueryFilter) (item : RankedResult) : Prop :=
  (∀ f ∈ filters, f.kind = .intitle) ∨
    ∃ value negated, ⟨.intitle value, negated⟩ ∈ filters ∧
      (negated ^^ value.isPrefixOf item.contentType) = true

/-- Some title is asked for, and it makes a difference where it is looked for. -/
def TitleMisjudged (filters : List QueryFilter) (item : RankedResult) (title : Str) : Prop :=
  (∃ f ∈ filters, f.kind = .intitle) ∧
    ¬(TakenForTypes filters item ↔
      ∃ value negated, ⟨.intitle value, negated⟩ ∈ filters ∧
        (negated ^^ contains value title) = true)

/-- The page is kept although it should not be, or the other way round: the query cannot be
parsed, or the page fails neither by its content type nor by its host, and its size or its
title is misjudged. -/
def Misjudged (sizeLimit : Str → UInt64 → Option UInt64) (unknown : Bool) (query : Str)
    (item : RankedResult) (title : Str) : Prop :=
  let filters := queryFilters sizeLimit query
  (∃ word ∈ splitWords query, StopsAt sizeLimit word) ∧
      (∀ kind, KindAccepts unknown filters item title kind) ∨
    (∀ word ∈ splitWords query, ¬StopsAt sizeLimit word) ∧
      KindAccepts unknown filters item title .contentType ∧
      KindAccepts unknown filters item title .domain ∧
      (SizeMisjudged unknown filters item ∧ KindAccepts unknown filters item title .intitle ∨
        ¬SizeMisjudged unknown filters item ∧ KindAccepts unknown filters item title .size ∧
          TitleMisjudged filters item title)

/-! ### The evaluation, list by list -/

private theorem anyAccepts_filterMap {Constraint : Type} {as : QueryFilter → Option Constraint}
    {accepted : Constraint → Bool} {filters : List QueryFilter} :
    anyAccepts accepted (filters.filterMap as) = true ↔
      ((∃ f ∈ filters, (as f).isSome) →
        ∃ f ∈ filters, ∃ constrant, as f = some constrant ∧ accepted constrant = true) := by
  rw [anyAccepts, Bool.or_eq_true, List.isEmpty_iff, List.filterMap_eq_nil_iff, List.any_eq_true]
  constructor
  · -- an empty list accepts whatever there is
    rintro (none_listed | ⟨constrant, listed, accepts⟩) ⟨f, member, isListed⟩
    · rw [none_listed f member] at isListed
      cases isListed
    · obtain ⟨f', member', same⟩ := List.mem_filterMap.mp listed
      exact ⟨f', member', constrant, same, accepts⟩
  · intro some_accepts
    by_cases some_listed : ∃ f ∈ filters, (as f).isSome
    · obtain ⟨f, member, constrant, same, accepts⟩ := some_accepts some_listed
      exact Or.inr ⟨constrant, List.mem_filterMap.mpr ⟨f, member, same⟩, accepts⟩
    · left
      intro f member
      rw [← Option.not_isSome_iff_eq_none]
      exact fun isListed => some_listed ⟨f, member, isListed⟩

variable {unknown : Bool} {filters : List QueryFilter} {item : RankedResult} {title : Str}

private theorem asContentType_isSome (f : QueryFilter) :
    f.asContentType.isSome ↔ f.kind = .contentType := by
  obtain ⟨criterion, negated⟩ := f
  cases criterion <;> simp [QueryFilter.asContentType, QueryFilter.kind, Criterion.kind]

private theorem asDomain_isSome (f : QueryFilter) : f.asDomain.isSome ↔ f.kind = .domain := by
  obtain ⟨criterion, negated⟩ := f
  cases criterion <;> simp [QueryFilter.asDomain, QueryFilter.kind, Criterion.kind]

private theorem asSize_isSome (f : QueryFilter) : f.asSize.isSome ↔ f.kind = .size := by
  obtain ⟨criterion, negated⟩ := f
  cases criterion <;> simp [QueryFilter.asSize, QueryFilter.kind, Criterion.kind]

private theorem asTitle_isSome (f : QueryFilter) : f.asTitle.isSome ↔ f.kind = .intitle := by
  obtain ⟨criterion, negated⟩ := f
  cases criterion <;> simp [QueryFilter.asTitle, QueryFilter.kind, Criterion.kind]

/-- The value of a filter is not empty. -/
def Valued (f : QueryFilter) : Prop :=
  ∀ value, f.criterion = .contentType value ∨ f.criterion = .intitle value → value ≠ []

private theorem contentTypeAccepts_valued {value : Str} (valued : value ≠ []) (contentType : Str)
    (negated : Bool) : contentTypeAccepts contentType ⟨value, negated⟩ =
      (negated ^^ value.isPrefixOf contentType) := by
  rw [contentTypeAccepts]
  cases contentType with
  | nil =>
    cases value with
    | nil => exact absurd rfl valued
    | cons c value => rfl
  | cons c contentType => rfl

variable (unknown title) in
private theorem domain_iff : anyAccepts (domainAccepts item.host) (listed filters).domain = true ↔
    KindAccepts unknown filters item title .domain := by
  rw [listed, anyAccepts_filterMap, KindAccepts]
  simp only [asDomain_isSome]
  refine imp_congr_right fun _ => exists_congr fun f => and_congr_right fun _ => ?_
  obtain ⟨criterion, negated⟩ := f
  cases criterion with
  | domain value =>
    cases negated <;> simp [QueryFilter.asDomain, QueryFilter.kind, Criterion.kind, accepts, meets,
      domainAccepts]
  | _ => simp [QueryFilter.asDomain, QueryFilter.kind, Criterion.kind]

variable (unknown title) in
private theorem contentType_iff (valued : ∀ f ∈ filters, Valued f) :
    anyAccepts (contentTypeAccepts item.contentType) (listed filters).contentType = true ↔
      KindAccepts unknown filters item title .contentType := by
  rw [listed, anyAccepts_filterMap, KindAccepts]
  simp only [asContentType_isSome]
  refine imp_congr_right fun _ => exists_congr fun f => and_congr_right fun member => ?_
  have own := valued f member
  obtain ⟨criterion, negated⟩ := f
  cases criterion with
  | contentType value =>
    have same := contentTypeAccepts_valued (own value (Or.inl rfl)) item.contentType negated
    cases negated <;>
      simp [QueryFilter.asContentType, QueryFilter.kind, Criterion.kind, accepts, meets, same]
  | _ => simp [QueryFilter.asContentType, QueryFilter.kind, Criterion.kind]

/-- The titles are compared with the content type. -/
private theorem title_iff (valued : ∀ f ∈ filters, Valued f) :
    anyAccepts (contentTypeAccepts item.contentType) (listed filters).title = true ↔
      ((∃ f ∈ filters, f.kind = .intitle) →
        ∃ value negated, ⟨.intitle value, negated⟩ ∈ filters ∧
          (negated ^^ value.isPrefixOf item.contentType) = true) := by
  rw [listed, anyAccepts_filterMap]
  simp only [asTitle_isSome]
  refine imp_congr_right fun _ => ?_
  constructor
  · -- the test reads the content type
    rintro ⟨⟨criterion, negated⟩, member, constrant, same, accepted⟩
    cases criterion with
    | intitle value =>
      cases same
      rw [contentTypeAccepts_valued (valued _ member value (Or.inr rfl))] at accepted
      exact ⟨value, negated, member, accepted⟩
    | _ => cases same
  · rintro ⟨value, negated, member, accepted⟩
    refine ⟨_, member, ⟨value, negated⟩, rfl, ?_⟩
    rwa [contentTypeAccepts_valued (valued _ member value (Or.inr rfl))]

private theorem size_iff :
    ((item.size = 0 → (listed filters).size = []) ∧
        anyAccepts (sizeAccepts item.size) (listed filters).size = true) ↔
      ((∃ f ∈ filters, f.kind = .size) → ∃ f ∈ filters, StrictlyOn item f) := by
  rw [listed, anyAccepts_filterMap]
  simp only [asSize_isSome, List.filterMap_eq_nil_iff, StrictlyOn]
  constructor
  · -- a page of unknown size passes no limit
    rintro ⟨known, accepted⟩ some_size
    obtain ⟨f, member, constrant, same, strictly⟩ := accepted some_size
    refine ⟨f, member, constrant, same, fun zero => ?_, strictly⟩
    rw [known zero f member] at same
    cases same
  · intro strictly
    constructor
    · intro zero f member
      rw [← Option.not_isSome_iff_eq_none, asSize_isSome]
      intro isSize
      obtain ⟨_, _, _, _, known, _⟩ := strictly ⟨f, member, isSize⟩
      exact known zero
    · intro some_size
      obtain ⟨f, member, constrant, same, _, accepted⟩ := strictly some_size
      exact ⟨f, member, constrant, same, accepted⟩

/-- A page has to pass one test after the other. -/
private theorem guard_iff {fails passes : Bool} :
    (if fails = true then false else passes) = true ↔ fails = false ∧ passes = true := by
  cases fails <;> simp
-- a page without a size passes only if no filter asks for one

private theorem evalFilter_iff {host contentType : Str} {size : UInt64} {filter : SearchFilter} :
    evalFilter host contentType size filter = true ↔
      ((size = 0 → filter.size = []) ∧ anyAccepts (sizeAccepts size) filter.size = true) ∧
        anyAccepts (domainAccepts host) filter.domain = true ∧
        anyAccepts (contentTypeAccepts contentType) filter.contentType = true ∧
        anyAccepts (contentTypeAccepts contentType) filter.title = true := by
  have unlisted : (size == 0 && !filter.size.isEmpty) = false ↔ (size = 0 → filter.size = []) := by
    simp [List.isEmpty_iff]
  rw [evalFilter, guard_iff, guard_iff, guard_iff, guard_iff, guard_iff, unlisted]
  simp only [Bool.not_eq_false', and_true, and_assoc]

theorem mem_filterResults {filter : SearchFilter} {ranked : List RankedResult} :
    item ∈ filterResults filter ranked ↔ item ∈ ranked ∧
      (filter.empty = true ∨ evalFilter item.host item.contentType item.size filter = true) := by
  rw [filterResults]
  split
  next empty => simp [empty]
  next some_listed =>
    rw [List.mem_filter]
    exact and_congr_right fun _ => (or_iff_right some_listed).symm

private theorem listed_empty_iff :
    (listed filters).empty = true ↔ ∀ f ∈ filters, f.kind = .intitle := by
  simp only [SearchFilter.empty, Bool.and_eq_true, List.isEmpty_iff, listed,
    List.filterMap_eq_nil_iff]
  constructor
  · rintro ⟨⟨contentTypes, domains⟩, sizes⟩ f member
    cases kind : f.kind with
    | intitle => rfl
    | contentType =>
      have isListed := (asContentType_isSome f).mpr kind
      rw [contentTypes f member] at isListed
      cases isListed
    | domain =>
      have isListed := (asDomain_isSome f).mpr kind
      rw [domains f member] at isListed
      cases isListed
    | size =>
      have isListed := (asSize_isSome f).mpr kind
      rw [sizes f member] at isListed
      cases isListed
  · -- title filters are not counted
    intro titles
    have none_listed : ∀ {Constraint : Type} {as : QueryFilter → Option Constraint}
        {kind : FilterKind},
        (∀ f, (as f).isSome ↔ f.kind = kind) → kind ≠ .intitle → ∀ f ∈ filters, as f = none := by
      intro Constraint as kind isSome other f member
      rw [← Option.not_isSome_iff_eq_none, isSome]
      exact fun same => other (same.symm.trans (titles f member))
    exact ⟨⟨none_listed asContentType_isSome (by decide), none_listed asDomain_isSome (by decide)⟩,
      none_listed asSize_isSome (by decide)⟩

variable (unknown title) in
/-- What the evaluation asks of a page, kind by kind. -/
private theorem passes_iff (valued : ∀ f ∈ filters, Valued f) :
    ((listed filters).empty = true ∨
        evalFilter item.host item.contentType item.size (listed filters) = true) ↔
      KindAccepts unknown filters item title .contentType ∧
        KindAccepts unknown filters item title .domain ∧
        ((∃ f ∈ filters, f.kind = .size) → ∃ f ∈ filters, StrictlyOn item f) ∧
        ((∃ f ∈ filters, f.kind = .intitle) → TakenForTypes filters item) := by
  rw [evalFilter_iff, size_iff, domain_iff unknown title,
    contentType_iff unknown title valued, title_iff valued, listed_empty_iff,
    TakenForTypes]
  by_cases titles : ∀ f ∈ filters, f.kind = .intitle
  · -- the lists that `empty` looks at are empty
    have vacuous : ∀ kind, kind ≠ .intitle → ¬∃ f ∈ filters, f.kind = kind := by
      rintro kind other ⟨f, member, same⟩
      exact other (same.symm.trans (titles f member))
    refine iff_of_true (Or.inl titles) ⟨?_, ?_, ?_, fun _ => Or.inl titles⟩
    · exact fun some_kind => absurd some_kind (vacuous .contentType (by decide))
    · exact fun some_kind => absurd some_kind (vacuous .domain (by decide))
    · exact fun some_kind => absurd some_kind (vacuous .size (by decide))
  · rw [or_iff_right titles, or_iff_right titles]
    constructor
    · rintro ⟨sizes, domains, types, titled⟩
      exact ⟨types, domains, sizes, titled⟩
    · rintro ⟨types, domains, sizes, titled⟩
      exact ⟨sizes, domains, types, titled⟩

/-! ### Sizes -/

private theorem kindAccepts_size_of_strictly
    (strictly : (∃ f ∈ filters, f.kind = .size) → ∃ f ∈ filters, StrictlyOn item f) :
    KindAccepts unknown filters item title .size := by
  intro some_size
  obtain ⟨⟨criterion, negated⟩, member, constrant, same, known, accepted⟩ := strictly some_size
  cases criterion with
  | size greater limit =>
    cases same
    refine ⟨_, member, rfl, ?_⟩
    -- a size strictly on the turned side is not on the side that was turned
    cases negated <;> cases greater <;> simp [sizeAccepts] at accepted <;>
      simp [accepts, meets, QueryFilter.kind, Criterion.kind, known, accepted, UInt64.le_of_lt]
  | _ => cases same

private theorem kindAccepts_size_of_misjudged (misjudged : SizeMisjudged unknown filters item) :
    KindAccepts unknown filters item title .size := by
  obtain ⟨⟨greater, limit, member, onLimit⟩, _⟩ := misjudged
  refine fun _ => ⟨_, member, rfl, ?_⟩
  rcases onLimit with ⟨zero, open_⟩ | ⟨known, same⟩
  · simp [accepts, QueryFilter.kind, Criterion.kind, zero, open_]
  · subst same
    cases greater <;> simp [accepts, meets, QueryFilter.kind, Criterion.kind, known]

/-- What accepts a size, accepts it strictly or is a NOT on the limit. -/
private theorem strictly_of_kindAccepts (accepted : KindAccepts unknown filters item title .size)
    (judged : ¬SizeMisjudged unknown filters item) (some_size : ∃ f ∈ filters, f.kind = .size) :
    ∃ f ∈ filters, StrictlyOn item f := by
  by_contra none_strictly
  have never : ∀ f ∈ filters, ¬StrictlyOn item f := fun f member strictly =>
    none_strictly ⟨f, member, strictly⟩
  obtain ⟨⟨criterion, negated⟩, member, kind, accepts_it⟩ := accepted some_size
  cases criterion with
  | size greater limit =>
    have off := never _ member
    rw [StrictlyOn] at off
    simp only [QueryFilter.asSize, Option.some.injEq, exists_eq_left', not_and] at off
    cases negated with
    | false =>
      simp only [accepts, meets, Bool.false_eq_true, if_false, Bool.and_eq_true, bne_iff_ne]
        at accepts_it
      refine off accepts_it.1 ?_
      cases greater <;> simpa [sizeAccepts] using accepts_it.2
    | true =>
      -- not beyond the limit and not strictly before it
      refine judged ⟨⟨greater, limit, member, ?_⟩, never⟩
      by_cases zero : item.size = 0
      · simp only [accepts, if_true, kind, zero, and_self] at accepts_it
        exact Or.inl ⟨zero, accepts_it⟩
      · refine Or.inr ⟨zero, ?_⟩
        have bound := off zero
        cases greater with
        | false =>
          simp [accepts, meets, zero] at accepts_it
          simp [sizeAccepts] at bound
          exact UInt64.le_antisymm bound accepts_it
        | true =>
          simp [accepts, meets, zero] at accepts_it
          simp [sizeAccepts] at bound
          exact UInt64.le_antisymm accepts_it bound
  | _ => cases kind

/-! ### Titles -/

private theorem kindAccepts_title_iff (some_title : ∃ f ∈ filters, f.kind = .intitle) :
    KindAccepts unknown filters item title .intitle ↔
      ∃ value negated, ⟨.intitle value, negated⟩ ∈ filters ∧
        (negated ^^ contains value title) = true := by
  constructor
  · intro accepted
    obtain ⟨⟨criterion, negated⟩, member, kind, verdict⟩ := accepted some_title
    cases criterion with
    | intitle value =>
      refine ⟨value, negated, member, ?_⟩
      cases negated <;> simpa [accepts, meets, QueryFilter.kind, Criterion.kind] using verdict
    | _ => cases kind
  · rintro ⟨value, negated, member, verdict⟩ _
    refine ⟨_, member, rfl, ?_⟩
    cases negated <;> simpa [accepts, meets, QueryFilter.kind, Criterion.kind] using verdict

/-! ### Which pages are kept -/

variable (unknown title) in
/-- Some size is strictly on its side exactly if the sizes accept and are not misjudged. -/
private theorem strictly_iff_judged :
    ((∃ f ∈ filters, f.kind = .size) → ∃ f ∈ filters, StrictlyOn item f) ↔
      KindAccepts unknown filters item title .size ∧ ¬SizeMisjudged unknown filters item := by
  constructor
  · intro strictly
    refine ⟨kindAccepts_size_of_strictly strictly, ?_⟩
    rintro ⟨⟨greater, limit, member, _⟩, none_strictly⟩
    obtain ⟨f, member', isStrict⟩ := strictly ⟨_, member, rfl⟩
    exact none_strictly f member' isStrict
  · rintro ⟨accepted, judged⟩
    exact strictly_of_kindAccepts accepted judged

variable (unknown) in
private theorem titleMisjudged_iff :
    TitleMisjudged filters item title ↔
      ¬(((∃ f ∈ filters, f.kind = .intitle) → TakenForTypes filters item) ↔
        KindAccepts unknown filters item title .intitle) := by
  rw [TitleMisjudged]
  by_cases some_title : ∃ f ∈ filters, f.kind = .intitle
  · simp only [some_title, true_and, true_implies, kindAccepts_title_iff some_title]
  · -- without titles both verdicts are yes
    simp only [some_title, false_and, false_implies, KindAccepts, iff_self, not_true_eq_false]

private theorem kindAccepts_all_iff : (∀ kind, KindAccepts unknown filters item title kind) ↔
    KindAccepts unknown filters item title .contentType ∧
      KindAccepts unknown filters item title .domain ∧
      KindAccepts unknown filters item title .size ∧
        KindAccepts unknown filters item title .intitle := by
  constructor
  · exact fun all => ⟨all _, all _, all _, all _⟩
  · rintro ⟨types, domains, sizes, titles⟩ kind
    cases kind with
    | contentType => exact types
    | domain => exact domains
    | size => exact sizes
    | intitle => exact titles

section Queries

variable {splitString : Str → Str → List Str} {sizeLimit : Str → UInt64 → Option UInt64}

private theorem valued_of_word {word : Str} {parts : Str × Str} {criterion : Criterion}
    (isFilter : filterWord word = some parts)
    (states : criterionOf sizeLimit parts.1 parts.2 = some criterion) (negated : Bool) :
    Valued ⟨criterion, negated⟩ := by
  rw [filterWord] at isFilter
  split at isFilter
  next type =>
    obtain ⟨key, value, split, some_value⟩ := splitColon_of_filter type
    cases split.symm.trans isFilter
    intro value' isText
    -- a filter with a text has the value of the word, whichever type it names
    have same : value' = value := by
      simp only [criterionOf] at states
      split at states
      · cases states
        rcases isText with isText | isText <;> cases isText
        rfl
      · split at states
        · cases states
          rcases isText with isText | isText <;> cases isText
        · split at states
          · cases states
            rcases isText with isText | isText <;> cases isText
            rfl
          · split at states
            · obtain ⟨_, _, isSize⟩ := Option.bind_eq_some_iff.mp states
              obtain ⟨_, _, rfl⟩ := Option.map_eq_some_iff.mp isSize
              rcases isText with isText | isText <;> cases isText
            · cases states
    rwa [same]
  · cases isFilter

private theorem valued_filtersFrom (words : List Str) (before : Bool) :
    ∀ f ∈ filtersFrom sizeLimit before words, Valued f := by
  induction words generalizing before with
  | nil => exact fun f member => absurd member List.not_mem_nil
  | cons word words ih =>
    intro f member
    rw [filtersFrom, List.mem_append] at member
    rcases member with here | later
    · obtain ⟨criterion, stated, rfl⟩ := List.mem_map.mp here
      rw [Option.mem_toList, Option.bind_eq_some_iff] at stated
      obtain ⟨parts, isFilter, states⟩ := stated
      exact valued_of_word isFilter states before
    · exact ih _ f later

/-- A query is parsed into the filters that its words state, unless a word stops the parser. -/
theorem parseSearchQuery_filters (splits : SplitsString splitString)
    (sizeLimit : Str → UInt64 → Option UInt64) (query : Str) :
    ((∃ word ∈ splitWords query, StopsAt sizeLimit word) →
      parseSearchQuery splitString sizeLimit query = none) ∧
      ((∀ word ∈ splitWords query, ¬StopsAt sizeLimit word) →
        ∃ text, parseSearchQuery splitString sizeLimit query =
          some (text, listed (queryFilters sizeLimit query))) := by
  obtain ⟨stops, reads⟩ := parseTokens_filters sizeLimit (splitWords query)
    (flag_down (splitWords query)) [] {}
  constructor
  · intro stopped
    rw [parseSearchQuery, splitWords_of_splits splits, stops stopped]
    rfl
  · intro readable
    obtain ⟨text, parsed⟩ := reads readable
    rw [parseSearchQuery, splitWords_of_splits splits, parsed]
    exact ⟨_, rfl⟩

private theorem keeps_iff (splits : SplitsString splitString) {query : Str}
    {ranked : List RankedResult} (isRanked : item ∈ ranked)
    (readable : ∀ word ∈ splitWords query, ¬StopsAt sizeLimit word) :
    Keeps splitString sizeLimit query ranked item ↔
      ((listed (queryFilters sizeLimit query)).empty = true ∨
        evalFilter item.host item.contentType item.size
        (listed (queryFilters sizeLimit query)) = true) := by
  obtain ⟨text, parsed⟩ := (parseSearchQuery_filters splits sizeLimit query).2 readable
  constructor
  · rintro ⟨text', filter, parsed', kept⟩
    cases parsed.symm.trans parsed'
    exact (mem_filterResults.mp kept).2
  · intro passes
    exact ⟨text, _, parsed, mem_filterResults.mpr ⟨isRanked, passes⟩⟩

/-- The size accepts in one evaluation where it does in the other and is not misjudged; the titles
accept or not as `taken` and `titled` say. -/
private theorem verdicts_agree_iff {types domains sized misjudged taken titled : Prop}
    (off : misjudged → sized) :
    ((types ∧ domains ∧ (sized ∧ ¬misjudged) ∧ taken) ↔ types ∧ domains ∧ sized ∧ titled) ↔
      ¬(types ∧ domains ∧ (misjudged ∧ titled ∨ ¬misjudged ∧ sized ∧ ¬(taken ↔ titled))) := by
  by_cases wrong : misjudged
  · simp only [wrong, off wrong, not_true_eq_false, and_false, false_and, true_and,
      or_false, false_iff]
  · simp only [wrong, not_false_eq_true, and_true, true_and, false_and, false_or]
    by_cases others : types ∧ domains ∧ sized
    · simp [others.1, others.2.1, others.2.2]
    · refine iff_of_true (iff_of_false ?_ ?_) ?_
      · exact fun all => others ⟨all.1, all.2.1, all.2.2.1⟩
      · exact fun all => others ⟨all.1, all.2.1, all.2.2.1⟩
      · exact fun all => others ⟨all.1, all.2.1, all.2.2.1⟩

/-- A ranked page is kept exactly if, for each kind of filter in the query, one of that kind
accepts it, unless the page is misjudged. -/
theorem kept_iff_accepted_iff (splits : SplitsString splitString)
    (sizeLimit : Str → UInt64 → Option UInt64) (unknown : Bool) (query : Str)
    {ranked : List RankedResult} {item : RankedResult} (isRanked : item ∈ ranked) (title : Str) :
    (Keeps splitString sizeLimit query ranked item ↔
        ∀ kind, KindAccepts unknown (queryFilters sizeLimit query) item title kind) ↔
      ¬Misjudged sizeLimit unknown query item title := by
  by_cases stopped : ∃ word ∈ splitWords query, StopsAt sizeLimit word
  · -- nothing is kept of what is ranked
    have dropped : ¬Keeps splitString sizeLimit query ranked item := by
      rintro ⟨text, filter, parsed, _⟩
      rw [(parseSearchQuery_filters splits sizeLimit query).1 stopped] at parsed
      cases parsed
    have readable : ¬∀ word ∈ splitWords query, ¬StopsAt sizeLimit word := fun readable =>
      let ⟨word, member, stops⟩ := stopped
      readable word member stops
    rw [Misjudged, and_iff_right stopped, iff_false_left dropped]
    simp only [readable, false_and, or_false]
  · have readable : ∀ word ∈ splitWords query, ¬StopsAt sizeLimit word := fun word member stops =>
      stopped ⟨word, member, stops⟩
    have valued : ∀ f ∈ queryFilters sizeLimit query, Valued f := valued_filtersFrom _ _
    rw [keeps_iff splits isRanked readable, passes_iff unknown title valued,
      kindAccepts_all_iff, Misjudged]
    simp only [stopped, false_and, false_or, and_iff_right readable]
    -- what is left is how the verdicts on size and title can differ
    have misjudged : SizeMisjudged unknown (queryFilters sizeLimit query) item →
        KindAccepts unknown (queryFilters sizeLimit query) item title .size :=
      kindAccepts_size_of_misjudged
    rw [strictly_iff_judged unknown title, titleMisjudged_iff unknown]
    exact verdicts_agree_iff misjudged

theorem kept_iff_accepted_iff_gemini :
    let page : RankedResult := ⟨lit "gemini://h/", lit "text/gemini", 5, 0, 0⟩
    let query := lit "linux NOT content_type:text/gemini domain:h"
    (Keeps Bytes.splitString (fun _ _ => none) query [page] page ↔
        ∀ kind, KindAccepts true (queryFilters (fun _ _ => none) query) page (lit "linux") kind) ↔
      ¬Misjudged (fun _ _ => none) true query page (lit "linux") :=
  kept_iff_accepted_iff (fun _ _ => rfl) _ _ _ List.mem_cons_self _

end Queries

/-- The title of a page is not looked at: a search for it with a domain keeps no page whose
content type does not start with it. -/
theorem title_not_looked_at :
    let page : RankedResult := ⟨lit "gemini://h/", lit "text/gemini", 5, 0, 0⟩
    ¬(Keeps Bytes.splitString (fun _ _ => none) (lit "linux domain:h intitle:linux") [page] page ↔
      ∀ kind, KindAccepts true
        (queryFilters (fun _ _ => none) (lit "linux domain:h intitle:linux")) page
        (lit "linux") kind) := by
  intro page same
  have accepted : ∀ kind, KindAccepts true
      (queryFilters (fun _ _ => none) (lit "linux domain:h intitle:linux")) page
        (lit "linux") kind := by
    intro kind
    cases kind <;> decide
  obtain ⟨text, filter, parsed, kept⟩ := same.mpr accepted
  have filters : (parseSearchQuery Bytes.splitString (fun _ _ => none)
      (lit "linux domain:h intitle:linux")).map Prod.snd =
      some { domain := [⟨lit "h", false⟩], title := [⟨lit "linux", false⟩] } := by decide
  rw [parsed] at filters
  cases filters
  revert kept
  decide

end Tlgs
