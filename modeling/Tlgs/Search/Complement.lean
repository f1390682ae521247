import Tlgs.Search.Sizes

/-!
# NOT and the complement

A NOT before a filter on the content type or the host is kept until the evaluation, which inverts
the test. A NOT before a size turns its side when the query is parsed, and a page of exactly that
size is on neither side.
-/
namespace Tlgs

open Bytes

/-- The page passes `evalFilter` with the filters of the query. -/
def Satisfies (splitString : Str → Str → List Str) (sizeLimit : Str → UInt64 → Option UInt64)
    (query host contentType : Str) (size : UInt64) : Prop :=
  ∃ text filter, parseSearchQuery splitString sizeLimit query = some (text, filter) ∧
    evalFilter host contentType size filter = true

/-- Among the words there is one filter, `word`, that asks for `criterion`, and no NOT directly
before it. -/
structure Single (sizeLimit : Str → UInt64 → Option UInt64) (before : List Str) (word : Str)
    (after : List Str) (criterion : Criterion) : Prop where
  asks : ∃ key ∈ filterKeys, ∃ value, filterValue key word = some value ∧
    criterionOf sizeLimit key value = some criterion
  others : ∀ other ∈ before ++ after, ¬IsFilter other
  plain : ∀ last ∈ before.getLast?, ¬IsNot last

/-- What one filter says of a page of known size. -/
def passes (host contentType : Str) (size : UInt64) (negated : Bool) : Criterion → Bool
  | .contentType value => contentTypeAccepts contentType ⟨value, negated⟩
  | .domain value => domainAccepts host ⟨value, negated⟩
  | .size greater limit => sizeAccepts size ⟨limit, negated ^^ greater⟩
  | .intitle value => contentTypeAccepts contentType ⟨value, negated⟩

/-! ### One filter in the lists -/

private theorem evalFilter_listed (host contentType : Str) {size : UInt64} (sized : size ≠ 0)
    (criterion : Criterion) (negated : Bool) :
    evalFilter host contentType size (listed [⟨criterion, negated⟩]) =
      passes host contentType size negated criterion := by
  cases criterion <;> simp [evalFilter, anyAccepts, passes, sized]

private theorem contentTypeAccepts_not (contentType value : Str) :
    contentTypeAccepts contentType ⟨value, true⟩ =
      !contentTypeAccepts contentType ⟨value, false⟩ := by
  simp only [contentTypeAccepts, Bool.true_xor, Bool.false_xor]

private theorem domainAccepts_not (host value : Str) :
    domainAccepts host ⟨value, true⟩ = !domainAccepts host ⟨value, false⟩ := by
  simp only [domainAccepts, Bool.true_xor, Bool.false_xor]

/-- A size is on one of the two sides of a limit unless it is the limit. -/
private theorem sizeAccepts_not_iff (size limit : UInt64) (greater : Bool) :
    (sizeAccepts size ⟨limit, !greater⟩ = true ↔ ¬sizeAccepts size ⟨limit, greater⟩ = true) ↔
      limit ≠ size := by
  cases greater <;> simp [sizeAccepts, UInt64.lt_iff_toNat_lt, ← UInt64.toNat_inj] <;> omega

private theorem passes_not_iff (host contentType : Str) (size : UInt64) (criterion : Criterion) :
    (passes host contentType size true criterion = true ↔
        ¬passes host contentType size false criterion = true) ↔
      ∀ greater, criterion ≠ .size greater size := by
  cases criterion with
  | contentType value => simp [passes, contentTypeAccepts_not]
  | domain value => simp [passes, domainAccepts_not]
  | intitle value => simp [passes, contentTypeAccepts_not]
  | size greater limit => simpa [passes] using sizeAccepts_not_iff size limit greater

/-! ### One filter in the words -/

section Words

variable {splitString : Str → Str → List Str} {sizeLimit : Str → UInt64 → Option UInt64}

private theorem filterWord_of_other {word : Str} (other : ¬IsFilter word) :
    filterWord word = none := by
  rw [filterWord, if_neg (fun type => other (tokenType_eq_filter_iff.mp type))]

private theorem not_stopsAt_of_other {word : Str} (other : ¬IsFilter word) :
    ¬StopsAt sizeLimit word := by
  rintro ⟨key, value, found, _⟩
  rw [filterWord_of_other other] at found
  cases found

private theorem filtersFrom_others {words : List Str} (others : ∀ word ∈ words, ¬IsFilter word)
    (negated : Bool) :
    filtersFrom sizeLimit negated words = [] := by
  induction words generalizing negated with
  | nil => rfl
  | cons word words ih =>
    obtain ⟨other, others⟩ := List.forall_mem_cons.mp others
    simp [filtersFrom, filterWord_of_other other, ih others]

/-- Words that are no filters only matter as a NOT before the next one. -/
private theorem filtersFrom_append {before : List Str} (others : ∀ word ∈ before, ¬IsFilter word)
    (negated : Bool) (words : List Str) :
    filtersFrom sizeLimit negated (before ++ words) =
      filtersFrom sizeLimit (before.getLast?.elim negated fun word => decide (IsNot word))
        words := by
  induction before generalizing negated with
  | nil => rfl
  | cons word before ih =>
    obtain ⟨other, others⟩ := List.forall_mem_cons.mp others
    -- every word resets the mark, so only the last one counts
    simp only [List.cons_append, filtersFrom, filterWord_of_other other, ih others,
      List.getLast?_cons, tokenType_eq_logical_iff]
    cases before.getLast? <;> rfl

variable {before after : List Str} {word : Str} {criterion : Criterion}

/-- A NOT in front of the filter only sets its mark. -/
private theorem queryFilters_single (single : Single sizeLimit before word after criterion) :
    filtersFrom sizeLimit false (before ++ word :: after) = [⟨criterion, false⟩] ∧
      ∀ nt, IsNot nt → filtersFrom sizeLimit false (before ++ nt :: word :: after) =
        [⟨criterion, true⟩] := by
  obtain ⟨key, known, value, stated, asks⟩ := single.asks
  obtain ⟨others, others'⟩ := List.forall_mem_append.mp single.others
  have found : filterWord word = some (key, value) := filterWord_eq_some.mpr ⟨known, stated⟩
  have one : ∀ negated, filtersFrom sizeLimit negated (word :: after) = [⟨criterion, negated⟩] := by
    intro negated
    simp [filtersFrom, found, asks, filtersFrom_others others']
  constructor
  · -- the word in front of the filter is no NOT
    rw [filtersFrom_append others, one]
    cases last : before.getLast? with
    | none => rfl
    | some w => simp [single.plain w last]
  · intro nt isNot
    have type : tokenType nt = .logical := tokenType_eq_logical_iff.mpr isNot
    have other : filterWord nt = none := by
      rw [filterWord, type]
      rfl
    rw [filtersFrom_append others, filtersFrom, other, type, one]
    rfl

private theorem not_stops_single (single : Single sizeLimit before word after criterion) :
    ∀ w ∈ before ++ word :: after, ¬StopsAt sizeLimit w := by
  obtain ⟨key, known, value, stated, asks⟩ := single.asks
  intro w member
  rcases List.mem_append.mp member with early | late
  · exact not_stopsAt_of_other (single.others w (List.mem_append_left _ early))
  rcases List.mem_cons.mp late with rfl | late
  · rintro ⟨key', value', found, unreadable⟩
    cases (filterWord_eq_some.mpr ⟨known, stated⟩).symm.trans found
    -- a size whose number cannot be read asks for nothing
    obtain ⟨rfl, greater, number, unit, parts, unread⟩ := unreadable
    simp [criterionOf_size, parts, unread] at asks
  · exact not_stopsAt_of_other (single.others w (List.mem_append_right _ late))

private theorem satisfies_iff (splits : SplitsString splitString) {query : Str}
    (readable : ∀ w ∈ splitWords query, ¬StopsAt sizeLimit w) (host contentType : Str)
    (size : UInt64) :
    Satisfies splitString sizeLimit query host contentType size ↔
      evalFilter host contentType size (listed (queryFilters sizeLimit query)) = true := by
  obtain ⟨text, parsed⟩ := (parseSearchQuery_filters splits sizeLimit query).2 readable
  exact exists_parsed_iff parsed

/-- With one filter, what the query asks of a page of known size is what this filter says. -/
private theorem satisfies_single (splits : SplitsString splitString) (query negatedQuery : Str)
    {nt : Str} (single : Single sizeLimit before word after criterion)
    (words : splitWords query = before ++ word :: after) (isNot : IsNot nt)
    (negatedWords : splitWords negatedQuery = before ++ nt :: word :: after)
    (host contentType : Str) {size : UInt64} (sized : size ≠ 0) :
    (Satisfies splitString sizeLimit query host contentType size ↔
        passes host contentType size false criterion = true) ∧
      (Satisfies splitString sizeLimit negatedQuery host contentType size ↔
        passes host contentType size true criterion = true) := by
  obtain ⟨alone, negated⟩ := queryFilters_single single
  have readable := not_stops_single single
  have readable' : ∀ w ∈ before ++ nt :: word :: after, ¬StopsAt sizeLimit w := by
    intro w member
    rcases List.mem_append.mp member with early | late
    · exact readable w (List.mem_append_left _ early)
    rcases List.mem_cons.mp late with rfl | late
    · -- a NOT is no filter
      rintro ⟨key, value, found, _⟩
      rw [filterWord, tokenType_eq_logical_iff.mpr isNot] at found
      cases found
    · exact readable w (List.mem_append_right _ late)
  rw [← words] at readable
  rw [← negatedWords] at readable'
  constructor
  · rw [satisfies_iff splits readable, queryFilters, words, alone,
      evalFilter_listed host contentType sized]
  · rw [satisfies_iff splits readable', queryFilters, negatedWords, negated nt isNot,
      evalFilter_listed host contentType sized]

/-- For a page of known size the NOT makes the complement, unless the filter is on the size and the
page has just the size of the limit. -/
theorem not_complements_iff (splits : SplitsString splitString) {query negatedQuery nt : Str}
    (single : Single sizeLimit before word after criterion)
    (words : splitWords query = before ++ word :: after) (isNot : IsNot nt)
    (negatedWords : splitWords negatedQuery = before ++ nt :: word :: after)
    (host contentType : Str) {size : UInt64} (sized : size ≠ 0) :
    (Satisfies splitString sizeLimit negatedQuery host contentType size ↔
        ¬Satisfies splitString sizeLimit query host contentType size) ↔
      ∀ greater, criterion ≠ .size greater size := by
  obtain ⟨alone, negated⟩ :=
    satisfies_single splits query negatedQuery single words isNot negatedWords host
      contentType sized
  rw [alone, negated]
  exact passes_not_iff host contentType size criterion

end Words

theorem not_complements_iff_domain :
    (Satisfies Bytes.splitString (fun _ _ => none) (lit "moon NOT domain:h") (lit "h")
      (lit "text/gemini") 7 ↔
        ¬Satisfies Bytes.splitString (fun _ _ => none) (lit "moon domain:h") (lit "h")
          (lit "text/gemini") 7) ↔
      ∀ greater, Criterion.domain (lit "h") ≠ .size greater 7 := by
  have single : Single (fun _ _ => none) [lit "moon"] (lit "domain:h") [] (.domain (lit "h")) :=
    ⟨⟨lit "domain", by decide, lit "h", by decide, by decide⟩, by decide, by decide⟩
  exact not_complements_iff (fun _ _ => rfl) single (by decide) (.inl rfl) (by decide) (lit "h")
    (lit "text/gemini") (by decide)

private theorem sizeLimit_four : sizeLimit (fun _ => false) (fun _ => 0) (lit "4") 1 = some 4 := by
  have digit : ¬(wholeDigits (lit "4") = [] ∧ fractionDigits (lit "4") = []) := by decide
  have within : ¬Underflows (fun _ => false) 4 := by simp [Underflows]
  have range : ¬(2 : Rat) ^ 1024 ≤ 4 := by
    have larger : (2 : Rat) ^ 3 ≤ 2 ^ 1024 := pow_le_pow_right₀ one_le_two (by decide)
    exact not_le.mpr (lt_of_lt_of_le (by norm_num) larger)
  have one : ((1 : UInt64).toNat : Rat) = 1 := Nat.cast_one
  rw [sizeLimit, stod, if_neg digit, decimalValue_four, toDouble_four, if_neg range, if_neg within,
    Option.map_some, one, mul_one, toDouble_four, toSizeT, if_pos (by norm_num)]
  simp

/-- A page of 4 bytes is found neither by `size:>4` nor by `NOT size:>4`. -/
theorem limit_on_neither_side :
    let sizes := sizeLimit (fun _ => false) fun _ => 0
    ¬(Satisfies Bytes.splitString sizes (lit "NOT size:>4") (lit "h") (lit "text/gemini") 4 ↔
      ¬Satisfies Bytes.splitString sizes (lit "size:>4") (lit "h") (lit "text/gemini") 4) := by
  intro sizes
  have parts : sizeParts (lit ">4") = some (true, lit "4", 1) := by decide
  have asks : criterionOf sizes (lit "size") (lit ">4") = some (.size true 4) := by
    rw [criterionOf_size, parts, Option.bind_some]
    exact congrArg (Option.map (Criterion.size true)) sizeLimit_four
  have single : Single sizes [] (lit "size:>4") [] (.size true 4) :=
    ⟨⟨lit "size", by decide, lit ">4", by decide, asks⟩, by decide, by decide⟩
  obtain ⟨alone, negated⟩ :=
    satisfies_single (fun _ _ => rfl) (lit "size:>4") (lit "NOT size:>4") single
    (by decide) (.inl rfl) (by decide) (lit "h") (lit "text/gemini")
      (show (4 : UInt64) ≠ 0 by decide)
  rw [alone, negated]
  decide

end Tlgs
