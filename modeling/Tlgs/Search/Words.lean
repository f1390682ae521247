import Tlgs.Search.Meaning

/-!
# The words of a query

Which words of a query are filters, which of them a NOT negates, and which are the text to search
for, each by the words alone. The lists of constraints are what the words say, word by word; the
text is put together from the free words and the titles, and loses a boundary between them.
-/
namespace Tlgs

open Bytes

/-! ### What a word is -/

def IsNot (word : Str) : Prop := word = lit "NOT" ∨ word = lit "not"

instance (word : Str) : Decidable (IsNot word) := inferInstanceAs (Decidable (_ ∨ _))

/-- What stands behind the key and a colon, if anything does. -/
def filterValue (key word : Str) : Option Str :=
  if (key ++ [colon]) <+: word ∧ key.length + 1 < word.length then some (word.drop (key.length + 1))
  else none

def IsFilter (word : Str) : Prop := ∃ key ∈ filterKeys, (filterValue key word).isSome = true

instance (word : Str) :
    Decidable (IsFilter word) := inferInstanceAs (Decidable (∃ key ∈ filterKeys, _))

theorem filterValue_eq_some {key word value : Str} :
    filterValue key word = some value ↔ word = key ++ colon :: value ∧ value ≠ [] := by
  rw [filterValue]
  constructor
  · intro found
    split at found
    next both =>
      obtain ⟨⟨rest, rfl⟩, long⟩ := both
      cases found
      rw [List.append_assoc, List.singleton_append] at long ⊢
      refine ⟨by simp, ?_⟩
      rw [List.ne_nil_iff_length_pos]
      simpa using long
    · cases found
  · rintro ⟨rfl, some_value⟩
    have long := List.length_pos_of_ne_nil some_value
    rw [if_pos ⟨⟨value, by simp⟩, by simpa using long⟩]
    simp

theorem splitColon_of_first {key : Str} (value : Str) (first : colon ∉ key) :
    splitColon (key ++ colon :: value) = some (key, value) := by
  have plain : ∀ c ∈ key, (c != colon) = true := fun c member =>
    bne_iff_ne.mpr fun same => first (same ▸ member)
  rw [splitColon, List.dropWhile_append_of_pos plain, List.takeWhile_append_of_pos plain]
  simp

theorem splitColon_eq_some {word key value : Str} :
    splitColon word = some (key, value) ↔ word = key ++ colon :: value ∧ colon ∉ key := by
  constructor
  · intro split
    by_cases colons : colon ∈ word
    · obtain ⟨front, rest, rfl, first⟩ := List.eq_append_cons_of_mem colons
      cases (splitColon_of_first rest first).symm.trans split
      exact ⟨rfl, first⟩
    · have all : word.dropWhile (· != colon) = [] := by
        rw [List.dropWhile_eq_nil_iff]
        exact fun c member => bne_iff_ne.mpr fun same => colons (same ▸ member)
      rw [splitColon, all] at split
      cases split
  · rintro ⟨rfl, first⟩
    exact splitColon_of_first value first

theorem colon_not_mem_filterKeys {key : Str} (known : key ∈ filterKeys) : colon ∉ key := by
  revert key
  decide

theorem isFilter_of_colon {key value : Str} (first : colon ∉ key) :
    IsFilter (key ++ colon :: value) ↔ key ∈ filterKeys ∧ value ≠ [] := by
  simp only [IsFilter, Option.isSome_iff_exists, filterValue_eq_some]
  constructor
  · rintro ⟨key', known, value', same, some_value⟩
    have parts := splitColon_of_first value' (colon_not_mem_filterKeys known)
    rw [← same, splitColon_of_first value first] at parts
    cases parts
    exact ⟨known, some_value⟩
  · exact fun both => ⟨key, both.1, value, rfl, both.2⟩

private theorem colon_mem_of_isFilter {word : Str} (isFilter : IsFilter word) : colon ∈ word := by
  obtain ⟨key, -, isSome⟩ := isFilter
  obtain ⟨value, found⟩ := Option.isSome_iff_exists.mp isSome
  rw [(filterValue_eq_some.mp found).1]
  exact List.mem_append_right _ List.mem_cons_self

private theorem colon_not_mem_of_isNot {word : Str} (isNot : IsNot word) : colon ∉ word := by
  rcases isNot with rfl | rfl <;> decide

/-- The classification of the first loop. -/
theorem tokenType_eq (word : Str) : tokenType word =
    if IsFilter word then .filter else if IsNot word then .logical else .text := by
  rw [tokenType]
  -- without a colon a word is no filter
  cases split : splitColon word with
  | none =>
    have other : ¬IsFilter word := fun isFilter => by
      obtain ⟨key, value, rfl, first⟩ := List.eq_append_cons_of_mem (colon_mem_of_isFilter isFilter)
      rw [splitColon_of_first value first] at split
      cases split
    rw [if_neg other]
    rfl
  -- with one it is no NOT, and a filter if key and value are proper
  | some parts =>
    obtain ⟨key, value⟩ := parts
    obtain ⟨rfl, first⟩ := splitColon_eq_some.mp split
    have other : ¬IsNot (key ++ colon :: value) := fun isNot =>
      colon_not_mem_of_isNot isNot (List.mem_append_right _ List.mem_cons_self)
    rw [if_neg other]
    simp only [isFilter_of_colon first]
    by_cases known : key ∈ filterKeys
    · have some_key : key ≠ [] := by
        rintro rfl
        revert known
        decide
      by_cases some_value : value = []
      · have unstated : ¬(value ≠ [] ∧ key ≠ []) := fun both => both.1 some_value
        rw [if_neg unstated]
        exact (if_neg other).trans (if_neg fun both => both.2 some_value).symm
      · rw [if_pos ⟨some_value, some_key⟩, if_pos known, if_pos ⟨known, some_value⟩]
    · simp only [known, false_and, if_false]
      split
      · rfl
      · exact if_neg other

theorem tokenType_eq_filter_iff {word : Str} : tokenType word = .filter ↔ IsFilter word := by
  rw [tokenType_eq]
  split
  next isFilter => exact iff_of_true rfl isFilter
  next other =>
    split <;> exact iff_of_false nofun other

theorem tokenType_eq_logical_iff {word : Str} : tokenType word = .logical ↔ IsNot word := by
  rw [tokenType_eq]
  split
  next isFilter =>
    exact iff_of_false nofun fun isNot =>
      colon_not_mem_of_isNot isNot (colon_mem_of_isFilter isFilter)
  next =>
    split
    next isNot => exact iff_of_true rfl isNot
    next other => exact iff_of_false nofun other

/-- The key and the value of a filter word. -/
theorem filterWord_eq_some {word key value : Str} :
    filterWord word = some (key, value) ↔ key ∈ filterKeys ∧ filterValue key word = some value := by
  rw [filterWord, filterValue_eq_some]
  constructor
  · intro found
    split at found
    next type =>
      obtain ⟨rfl, first⟩ := splitColon_eq_some.mp found
      obtain ⟨known, some_value⟩ := (isFilter_of_colon first).mp (tokenType_eq_filter_iff.mp type)
      exact ⟨known, rfl, some_value⟩
    · cases found
  · rintro ⟨known, rfl, some_value⟩
    have first := colon_not_mem_filterKeys known
    rw [if_pos (tokenType_eq_filter_iff.mpr ((isFilter_of_colon first).mpr ⟨known, some_value⟩))]
    exact splitColon_of_first value first

/-! ### The constraints of a query -/

/-- The words, each with whether the word directly before it is a NOT; `before` is whether one
stands before the first. -/
def marked (before : Bool) (words : List Str) : List (Bool × Str) :=
  (before :: words.map fun word => decide (IsNot word)).zip words

theorem marked_cons (before : Bool) (word : Str) (words : List Str) :
    marked before (word :: words) = (before, word) :: marked (decide (IsNot word)) words :=
  rfl

/-- What a marked word says under a key. -/
def constraintOf (key : Str) (word : Bool × Str) : Option FilterConstrant :=
  (filterValue key word.2).map fun value => ⟨value, word.1⟩

/-- The constraints of one key, word by word. -/
def constraints (key : Str) (words : List Str) : List FilterConstrant :=
  (marked false words).filterMap (constraintOf key)

section Parse

variable {splitString : Str → Str → List Str} {sizeLimit : Str → UInt64 → Option UInt64}

/-- The keys of constraints on text. -/
def textKeys : List Str := [lit "content_type", lit "domain", lit "intitle"]

/-- The key and the value of such a constraint. -/
def Criterion.stated : Criterion → Option (Str × Str)
  | .contentType value => some (lit "content_type", value)
  | .domain value => some (lit "domain", value)
  | .size _ _ => none
  | .intitle value => some (lit "intitle", value)

theorem criterionOf_stated (key value : Str) :
    (criterionOf sizeLimit key value).bind Criterion.stated =
      if key ∈ textKeys then some (key, value) else none := by
  rw [criterionOf]
  split
  next type =>
    subst type
    rfl
  next no_type =>
  split
  next domain =>
    subst domain
    rfl
  next no_domain =>
  split
  next title =>
    subst title
    rfl
  next no_title =>
    -- the remaining keys state no text
    have other : key ∉ textKeys := by simp [textKeys, no_type, no_domain, no_title]
    rw [if_neg other, Option.bind_eq_none_iff]
    intro criterion asked
    split at asked
    · obtain ⟨_, _, limited⟩ := Option.bind_eq_some_iff.mp asked
      obtain ⟨_, _, rfl⟩ := Option.map_eq_some_iff.mp limited
      rfl
    · cases asked

/-- A list of the parser takes the constraints of one key. -/
def Takes (key : Str) (as : QueryFilter → Option FilterConstrant) : Prop :=
  ∀ f, as f = f.criterion.stated.bind fun said =>
    if said.1 = key then some ⟨said.2, f.negated⟩ else none

private theorem takes_contentType : Takes (lit "content_type") QueryFilter.asContentType := by
  rintro ⟨criterion, negated⟩
  cases criterion <;> rfl

private theorem takes_domain : Takes (lit "domain") QueryFilter.asDomain := by
  rintro ⟨criterion, negated⟩
  cases criterion <;> rfl

private theorem takes_title : Takes (lit "intitle") QueryFilter.asTitle := by
  rintro ⟨criterion, negated⟩
  cases criterion <;> rfl

variable {key : Str} {as : QueryFilter → Option FilterConstrant}

private theorem bind_criterionOf (known : key ∈ textKeys) (takes : Takes key as) (k value : Str)
    (negated : Bool) :
    ((criterionOf sizeLimit k value).bind fun criterion => as ⟨criterion, negated⟩) =
      if k = key then some ⟨value, negated⟩ else none := by
  have stated : ∀ criterion, as ⟨criterion, negated⟩ = criterion.stated.bind fun said =>
      if said.1 = key then some ⟨said.2, negated⟩ else none := fun criterion => takes _
  simp only [stated]
  rw [← Option.bind_assoc, criterionOf_stated]
  split
  · rfl
  next other =>
    rw [if_neg fun same : k = key => other (same ▸ known)]
    rfl

/-- What a word adds to the list. -/
private theorem constraintOf_eq (known : key ∈ textKeys) (takes : Takes key as) (before : Bool)
    (word : Str) :
    (((filterWord word).bind fun parts => criterionOf sizeLimit parts.1 parts.2).bind
      fun criterion =>
      as ⟨criterion, before⟩) = constraintOf key (before, word) := by
  have filters : ∀ k ∈ textKeys, k ∈ filterKeys := by decide
  rw [Option.bind_assoc, constraintOf]
  simp only [bind_criterionOf known takes]
  have read : ∀ value, filterWord word = some (key, value) ↔ filterValue key word = some value :=
    fun value => filterWord_eq_some.trans (and_iff_right (filters key known))
  cases found : filterValue key word with
  | some value =>
    rw [(read value).mpr found, Option.bind_some, if_pos rfl]
    rfl
  | none =>
    -- a filter of another key, or none at all
    have other : ∀ parts, filterWord word = some parts → parts.1 ≠ key := by
      rintro ⟨k, value⟩ parts rfl
      rw [(read value).mp parts] at found
      cases found
    cases parts : filterWord word with
    | none => rfl
    | some parts' => rw [Option.bind_some, if_neg (other parts' parts), Option.map_none]

/-- A list of the parser has what its kind takes from each filter word. -/
theorem filterMap_filtersFrom {Constraint : Type} {as : QueryFilter → Option Constraint}
    (of : Bool × Str → Option Constraint)
    (states : ∀ before word, (((filterWord word).bind fun parts => criterionOf sizeLimit parts.1
      parts.2).bind fun criterion => as ⟨criterion, before⟩) = of (before, word))
    (words : List Str) (before : Bool) :
    (filtersFrom sizeLimit before words).filterMap as = (marked before words).filterMap of := by
  induction words generalizing before with
  | nil => rfl
  | cons word words ih =>
    rw [filtersFrom, List.filterMap_append, ih, marked_cons, List.filterMap_cons, ← states]
    simp only [tokenType_eq_logical_iff]
    cases (filterWord word).bind fun parts => criterionOf sizeLimit parts.1 parts.2 with
    | none => rfl
    | some criterion =>
      rw [Option.bind_some]
      cases taken : as ⟨criterion, before⟩ <;> simp [taken]

/-- A query that is parsed is parsed into the filters that its words state. -/
theorem listed_of_parsed (splits : SplitsString splitString) {query text : Str}
    {filter : SearchFilter}
    (parsed : parseSearchQuery splitString sizeLimit query = some (text, filter)) :
    filter = listed (queryFilters sizeLimit query) := by
  obtain ⟨stops, reads⟩ := parseSearchQuery_filters splits sizeLimit query
  by_cases stopped : ∃ word ∈ splitWords query, StopsAt sizeLimit word
  · rw [stops stopped] at parsed
    cases parsed
  · obtain ⟨text', listed⟩ := reads fun word member stops => stopped ⟨word, member, stops⟩
    cases listed.symm.trans parsed
    rfl

/-- The constraints of a query are those that its words state, each negated exactly by a NOT
directly before it. -/
theorem parse_constraints (splits : SplitsString splitString) {query text : Str}
    {filter : SearchFilter}
    (parsed : parseSearchQuery splitString sizeLimit query = some (text, filter)) :
    filter.contentType = constraints (lit "content_type") (splitWords query) ∧
      filter.domain = constraints (lit "domain") (splitWords query) ∧
      filter.title = constraints (lit "intitle") (splitWords query) := by
  rw [listed_of_parsed splits parsed]
  exact ⟨filterMap_filtersFrom _ (constraintOf_eq (by decide) takes_contentType) _ _,
    filterMap_filtersFrom _ (constraintOf_eq (by decide) takes_domain) _ _,
    filterMap_filtersFrom _ (constraintOf_eq (by decide) takes_title) _ _⟩

theorem parse_constraints_not :
    let query := lit "NOT domain:a NOT size:x domain:b"
    let filter : SearchFilter := { domain := [⟨lit "a", true⟩, ⟨lit "b", false⟩] }
    filter.contentType = constraints (lit "content_type") (splitWords query) ∧
      filter.domain = constraints (lit "domain") (splitWords query) ∧
      filter.title = constraints (lit "intitle") (splitWords query) := by
  intro query filter
  have parsed : parseSearchQuery Bytes.splitString (fun _ _ => none) query = some ([], filter) := by
    decide
  exact parse_constraints (fun _ _ => rfl) parsed

end Parse

/-! ### The text of a query -/

/-- The words that are neither filters nor a NOT directly before one. -/
def freeWords : List Str → List Str
  | [] => []
  | word :: words =>
    if IsFilter word ∨ IsNot word ∧ ∃ next ∈ words.head?, IsFilter next then freeWords words
    else word :: freeWords words

/-- The values of the titles, negated ones included or not. -/
def titles (words : List Str) : List Str := (constraints (lit "intitle") words).map (·.value)

def wantedTitles (words : List Str) : List Str :=
  ((constraints (lit "intitle") words).filter (!·.negate)).map (·.value)

/-- Each word with a blank behind it. -/
def joined (words : List Str) : Str := words.flatMap fun word => word ++ lit " "

theorem joined_cons (word : Str) (words : List Str) :
    joined (word :: words) = word ++ lit " " ++ joined words :=
  rfl

/-- A blank is a boundary between words. -/
theorem splitWords_boundary (front rest : Str) :
    splitWords (front ++ lit " " ++ rest) = splitWords front ++ splitWords rest := by
  rw [splitWords, splitWords, splitWords, ← List.filter_append]
  refine congrArg _ ?_
  rw [List.append_assoc]
  exact List.splitOn_append_cons_self front rest

/-- A word as `splitString` leaves it. -/
def ProperWord (word : Str) : Prop := word ≠ [] ∧ 32 ∉ word

theorem splitWords_word {word : Str} (proper : ProperWord word) : splitWords word = [word] := by
  rw [splitWords, List.splitOn_eq_singleton proper.2]
  simp [proper.1]

theorem splitWords_joined {words : List Str} (proper : ∀ word ∈ words, ProperWord word)
    (rest : Str) :
    splitWords (joined words ++ rest) = words ++ splitWords rest := by
  induction words with
  | nil => rfl
  | cons word words ih =>
    obtain ⟨first, others⟩ := List.forall_mem_cons.mp proper
    rw [joined_cons, List.append_assoc, splitWords_boundary, splitWords_word first, ih others]
    rfl

theorem properWord_of_mem {query word : Str} (member : word ∈ splitWords query) :
    ProperWord word := by
  obtain ⟨part, some_word⟩ := List.mem_filter.mp member
  exact ⟨by simpa using some_word, LexicalPath.not_mem_of_mem_splitOn part⟩

theorem mem_of_mem_freeWords {words : List Str} {word : Str} (member : word ∈ freeWords words) :
    word ∈ words := by
  induction words with
  | nil => cases member
  | cons first words ih =>
    rw [freeWords] at member
    split at member
    · exact List.mem_cons_of_mem _ (ih member)
    · rcases List.mem_cons.mp member with rfl | later
      · exact List.mem_cons_self
      · exact List.mem_cons_of_mem _ (ih later)

theorem properWord_of_mem_titles {words : List Str} (proper : ∀ word ∈ words, ProperWord word)
    {title : Str} (member : title ∈ titles words) : ProperWord title := by
  obtain ⟨constraint, listed, rfl⟩ := List.mem_map.mp member
  obtain ⟨⟨before, word⟩, inside, states⟩ := List.mem_filterMap.mp listed
  obtain ⟨value, found, rfl⟩ := Option.map_eq_some_iff.mp states
  have word_proper := proper word (List.of_mem_zip inside).2
  obtain ⟨rfl, some_value⟩ := filterValue_eq_some.mp found
  exact ⟨some_value, fun blank =>
    word_proper.2 (List.mem_append_right _ (List.mem_cons_of_mem _ blank))⟩

section Parse

variable {splitString : Str → Str → List Str} {sizeLimit : Str → UInt64 → Option UInt64}

theorem parseTokens_text {words : List Str} {negate : Bool} {searchQuery text : Str}
    {filter filter' : SearchFilter}
    (parsed : parseTokens sizeLimit words negate searchQuery filter = some (text, filter')) :
    text = searchQuery ++ joined (freeWords words) := by
  induction words generalizing negate searchQuery filter with
  | nil =>
    cases parsed
    exact (List.append_nil _).symm
  | cons word words ih =>
    -- only a free word is added to the text
    cases type : tokenType word with
    | text =>
      have no_filter : ¬IsFilter word := fun isFilter => by
        rw [tokenType_eq_filter_iff.mpr isFilter] at type
        cases type
      have no_not : ¬IsNot word := fun isNot => by
        rw [tokenType_eq_logical_iff.mpr isNot] at type
        cases type
      simp only [parseTokens, type] at parsed
      rw [freeWords, if_neg (not_or.mpr ⟨no_filter, fun both => no_not both.1⟩),
        joined_cons, ih parsed]
      simp
    | filter =>
      simp only [parseTokens, type] at parsed
      rw [freeWords, if_pos (.inl (tokenType_eq_filter_iff.mp type))]
      split at parsed
      · cases parsed
      · obtain ⟨filter, -, later⟩ := Option.bind_eq_some_iff.mp parsed
        exact ih later
    | logical =>
      have no_filter : ¬IsFilter word := fun isFilter => by
        rw [tokenType_eq_filter_iff.mpr isFilter] at type
        cases type
      have isNot := tokenType_eq_logical_iff.mp type
      have next : words.head?.map tokenType = some .filter ↔
          ∃ next ∈ words.head?, IsFilter next := by
        simp only [Option.map_eq_some_iff, tokenType_eq_filter_iff, Option.mem_def]
      simp only [parseTokens, type, next] at parsed
      rw [freeWords]
      -- a NOT that no filter follows is a free word
      split at parsed
      next follows =>
        rw [if_pos (.inr ⟨isNot, follows⟩)]
        exact ih parsed
      next alone =>
        rw [if_neg (not_or.mpr ⟨no_filter, fun both => alone both.2⟩), joined_cons, ih parsed]
        simp

/-- The text is the free words, without the last blank, and the titles. -/
theorem parse_text (splits : SplitsString splitString) {query text : Str} {filter : SearchFilter}
    (parsed : parseSearchQuery splitString sizeLimit query = some (text, filter)) :
    text = (joined (freeWords (splitWords query))).dropLast ++ joined
      (titles (splitWords query)) := by
  have listed : filter.title = constraints (lit "intitle") (splitWords query) := by
    rw [listed_of_parsed splits parsed]
    exact filterMap_filtersFrom _ (constraintOf_eq (by decide) takes_title) _ _
  obtain ⟨⟨searchQuery, filter'⟩, tokens, made⟩ := Option.map_eq_some_iff.mp parsed
  cases made
  have all : joined (filter.title.map (·.value)) = filter.title.flatMap fun tc =>
      tc.value ++ lit " " :=
    List.flatMap_map _ _ _
  rw [splitWords_of_splits splits] at tokens
  rw [parseTokens_text tokens, List.nil_append, titles, ← listed, all]

end Parse

/-- Behind the last free word there is no boundary. -/
private theorem dropLast_joined (front : List Str) (last : Str) :
    (joined (front ++ [last])).dropLast = joined front ++ last := by
  have whole : joined (front ++ [last]) = joined front ++ last ++ [32] := by
    rw [joined, List.flatMap_append]
    simp [joined, show lit " " = [32] from rfl]
  rw [whole, List.dropLast_concat]

private theorem splitWords_all {words : List Str} (proper : ∀ word ∈ words, ProperWord word) :
    splitWords (joined words) = words := by
  have split := splitWords_joined proper []
  rwa [List.append_nil, show splitWords [] = [] from rfl, List.append_nil] at split

/-- So the first title becomes a part of that word. -/
private theorem splitWords_fused {front others : List Str} {last title : Str}
    (proper : ∀ word ∈ front ++ [last], ProperWord word)
    (proper' : ∀ word ∈ title :: others, ProperWord word) :
    splitWords ((joined (front ++ [last])).dropLast ++ joined (title :: others)) =
      front ++ (last ++ title) :: others := by
  obtain ⟨fronts, single⟩ := List.forall_mem_append.mp proper
  have last_proper := single last List.mem_cons_self
  obtain ⟨first, rest⟩ := List.forall_mem_cons.mp proper'
  have fused : ProperWord (last ++ title) := by
    refine ⟨fun empty => last_proper.1 (List.append_eq_nil_iff.mp empty).1, fun blank => ?_⟩
    exact (List.mem_append.mp blank).elim last_proper.2 first.2
  have one : joined front ++ last ++ joined (title :: others) =
      joined front ++ joined ((last ++ title) :: others) := by
    rw [joined_cons, joined_cons]
    simp
  rw [dropLast_joined, one, splitWords_joined fronts,
    splitWords_all (List.forall_mem_cons.mpr ⟨fused, rest⟩)]

/-- Without a title the last blank is the only one that is cut off. -/
private theorem splitWords_free {front : List Str} {last : Str}
    (proper : ∀ word ∈ front ++ [last], ProperWord word) :
    splitWords (joined (front ++ [last])).dropLast = front ++ [last] := by
  obtain ⟨fronts, single⟩ := List.forall_mem_append.mp proper
  rw [dropLast_joined, splitWords_joined fronts, splitWords_word (single last List.mem_cons_self)]

/-- All titles are wanted exactly if none is negated. -/
private theorem titles_eq_wanted_iff (words : List Str) : titles words = wantedTitles words ↔
    ∀ constraint ∈ constraints (lit "intitle") words, constraint.negate = false := by
  rw [titles, wantedTitles]
  constructor
  · intro same
    have size := congrArg List.length same
    rw [List.length_map, List.length_map, eq_comm, List.length_filter_eq_length_iff] at size
    simpa using size
  · intro none_negated
    rw [List.filter_eq_self.mpr (by simpa using none_negated)]

/-- The text splits into the free words and the titles that are not negated exactly if there is no
title, or no free word and no title negated. -/
theorem text_words_iff {splitString : Str → Str → List Str} (splits : SplitsString splitString)
    {sizeLimit : Str → UInt64 → Option UInt64} {query text : Str} {filter : SearchFilter}
    (parsed : parseSearchQuery splitString sizeLimit query = some (text, filter)) :
    splitWords text = freeWords (splitWords query) ++ wantedTitles (splitWords query) ↔
      constraints (lit "intitle") (splitWords query) = [] ∨
        freeWords (splitWords query) = [] ∧
          ∀ constraint ∈ constraints (lit "intitle") (splitWords query),
            constraint.negate = false := by
  have proper : ∀ word ∈ splitWords query, ProperWord word := fun word => properWord_of_mem
  have titles_proper : ∀ word ∈ titles (splitWords query), ProperWord word :=
    fun word => properWord_of_mem_titles proper
  have free_proper : ∀ word ∈ freeWords (splitWords query), ProperWord word :=
    fun word member => proper word (mem_of_mem_freeWords member)
  rw [parse_text splits parsed]
  rcases List.eq_nil_or_concat' (freeWords (splitWords query)) with none | ⟨front, last, free⟩
  · -- nothing but titles
    have split : splitWords ((joined []).dropLast ++ joined (titles (splitWords query))) =
        titles (splitWords query) := splitWords_all titles_proper
    rw [none, List.nil_append, and_iff_right rfl, split, titles_eq_wanted_iff, iff_or_self]
    intro no_title
    simp [no_title]
  · rw [free] at free_proper ⊢
    have some_word : ¬front ++ [last] = [] := by simp
    rw [or_iff_left fun both => some_word both.1]
    cases listed : constraints (lit "intitle") (splitWords query) with
    | nil =>
      have no_title : titles (splitWords query) = [] := by rw [titles, listed, List.map_nil]
      have no_wanted : wantedTitles (splitWords query) = [] := by rw [wantedTitles, listed]; rfl
      refine iff_of_true ?_ rfl
      rw [no_title, no_wanted, show joined [] = [] from rfl, List.append_nil, List.append_nil,
        splitWords_free free_proper]
    | cons constraint others =>
      refine iff_of_false ?_ (List.cons_ne_nil _ _)
      rw [titles, listed, List.map_cons] at titles_proper ⊢
      rw [splitWords_fused free_proper titles_proper, List.append_assoc]
      intro same
      have word := (List.cons.inj (List.append_cancel_left same)).1
      exact (titles_proper _ List.mem_cons_self).1 (List.append_right_eq_self.mp word)

theorem text_words_iff_domain :
    splitWords (lit "linux not phone") = freeWords (splitWords (lit "linux not phone domain:h")) ++
        wantedTitles (splitWords (lit "linux not phone domain:h")) ↔
      constraints (lit "intitle") (splitWords (lit "linux not phone domain:h")) = [] ∨
        freeWords (splitWords (lit "linux not phone domain:h")) = [] ∧
          ∀ constraint ∈ constraints (lit "intitle") (splitWords (lit "linux not phone domain:h")),
            constraint.negate = false := by
  have parsed : parseSearchQuery Bytes.splitString (fun _ _ => none)
      (lit "linux not phone domain:h") =
      some (lit "linux not phone", { domain := [⟨lit "h", false⟩] }) := by decide
  exact text_words_iff (fun _ _ => rfl) parsed

/-- The last word and the title become one, and what must not be in the title is searched for. -/
theorem title_joins_word :
    parseSearchQuery Bytes.splitString (fun _ _ => none) (lit "foo intitle:bar") =
        some (lit "foobar ", { title := [⟨lit "bar", false⟩] }) ∧
      splitWords (lit "foobar ") ≠ freeWords (splitWords (lit "foo intitle:bar")) ++
        wantedTitles (splitWords (lit "foo intitle:bar")) ∧
      parseSearchQuery Bytes.splitString (fun _ _ => none) (lit "NOT intitle:bar") =
        some (lit "bar ", { title := [⟨lit "bar", true⟩] }) ∧
      splitWords (lit "bar ") ≠ freeWords (splitWords (lit "NOT intitle:bar")) ++
        wantedTitles (splitWords (lit "NOT intitle:bar")) := by
  decide

end Tlgs
