import Tlgs.Base.Rounding
import Tlgs.Base.Numerals
import Tlgs.Search.Words

/-!
# The sizes of a query

What the words `size:…` of a query ask for, and what `parseSearchQuery` makes of them. The pattern
takes any digits and points for a number; `std::stod` reads what it can of them or throws, and the
product with the unit is converted to a `size_t` that may be too small for it.
-/
namespace Tlgs

open Bytes

/-! ### `std::stod` -/

/-- A number as a `double`: 53 binary digits, and no unit below the least subnormal number. -/
abbrev toDouble (x : Rat) : Rat := Rounding.nearest 53 (-1074) x

/-- The digits at the start, and those behind a point that follows them. -/
def wholeDigits (text : Str) : Str := text.takeWhile isdigit

def fractionDigits (text : Str) : Str :=
  match text.dropWhile isdigit with
  | [] => []
  | c :: rest => if c = fullStop then rest.takeWhile isdigit else []

/-- The number that they write. -/
def decimalValue (text : Str) : Rat :=
  digitsVal (wholeDigits text ++ fractionDigits text) / 10 ^ (fractionDigits text).length

section Conversion

-- whether a result below the normalised numbers is reported as out of range is left open
variable (reported : Rat → Bool)

-- the conversion to `size_t` is undefined for a number that does not fit
variable (converted : Rat → UInt64)

def Underflows (value : Rat) : Prop := 0 < value ∧ value < 2 ^ (-1022 : Int) ∧ reported value = true

instance (value : Rat) :
    Decidable (Underflows reported value) := inferInstanceAs (Decidable (_ ∧ _ ∧ _))

/-- `std::stod` of a text of digits and points: `none` stands for the two exceptions it throws,
`invalid_argument` and `out_of_range`. Text after the number is ignored. -/
def stod (text : Str) : Option Rat :=
  if wholeDigits text = [] ∧ fractionDigits text = [] then none
  else if 2 ^ 1024 ≤ toDouble (decimalValue text) then none
  else if Underflows reported (decimalValue text) then none
  else some (toDouble (decimalValue text))

def toSizeT (x : Rat) : UInt64 := if x < 2 ^ 64 then UInt64.ofNat ⌊x⌋₊ else converted x

/-- `std::stod(match[2])*unit.value()` as a `size_t`. -/
def sizeLimit (number : Str) (unit : UInt64) : Option UInt64 :=
  (stod reported number).map fun value => toSizeT converted (toDouble (value * unit.toNat))

end Conversion

/-! ### The sizes that the words state -/

/-- A size that the pattern and the table of units accept. -/
structure SizeWord where
  negated : Bool
  greater : Bool
  number : Str
  unit : UInt64
  deriving DecidableEq, Repr

def sizeWord (word : Bool × Str) : Option SizeWord :=
  ((filterValue (lit "size") word.2).bind sizeParts).map fun (greater, number, unit) =>
    ⟨word.1, greater, number, unit⟩

def acceptedSizes (words : List Str) : List SizeWord := (marked false words).filterMap sizeWord

/-- One point at most, and some digit. -/
def ProperNumber (number : Str) : Prop :=
  number.count fullStop ≤ 1 ∧ ∃ c ∈ number, isdigit c = true

instance (number : Str) :
    Decidable (ProperNumber number) := inferInstanceAs (Decidable (_ ∧ ∃ c ∈ number, _))

/-- The well-formed sizes. -/
def statedSizes (words : List Str) : List SizeWord :=
  (acceptedSizes words).filter fun size => decide (ProperNumber size.number)

/-- The number times the unit, as a `double` each time. -/
def SizeWord.product (size : SizeWord) : Rat :=
  toDouble (toDouble (decimalValue size.number) * size.unit.toNat)

/-- The limit is the whole part of the product. -/
def Stores (size : SizeWord) (constrant : SizeConstrant) : Prop :=
  constrant.greater = (size.negated ^^ size.greater) ∧
    (constrant.size.toNat : Rat) ≤ size.product ∧ size.product < constrant.size.toNat + 1

/-- The query is parsed, and the sizes listed are the well-formed ones in order. -/
def SizesHandled (splitString : Str → Str → List Str) (reported : Rat → Bool)
    (converted : Rat → UInt64) (query : Str) : Prop :=
  ∃ text filter, parseSearchQuery splitString (sizeLimit reported converted) query =
    some (text, filter) ∧
    List.Forall₂ Stores (statedSizes (splitWords query)) filter.size

/-- The number can be read, and its product with the unit fits. -/
def SizeWord.Fits (reported : Rat → Bool) (size : SizeWord) : Prop :=
  ProperNumber size.number ∧
    toDouble (decimalValue size.number) * size.unit.toNat < 2 ^ 64 - 2 ^ 10 ∧
    ¬Underflows reported (decimalValue size.number)

/-- A known unit is not zero. -/
theorem parseSizeUnits_pos {letters : Str} {unit : UInt64}
    (known : parseSizeUnits letters = some unit) :
    1 ≤ unit.toNat := by
  simp only [parseSizeUnits] at known
  split_ifs at known <;> (cases known; decide)

/-! ### What the parser makes of them -/

section Parse

variable {reported : Rat → Bool} {converted : Rat → UInt64}

/-- What the parser lists for a size; nothing when `std::stod` throws. -/
def listedSize (reported : Rat → Bool) (converted : Rat → UInt64) (size : SizeWord) :
    Option SizeConstrant :=
  (sizeLimit reported converted size.number size.unit).map fun limit =>
    ⟨limit, size.negated ^^ size.greater⟩

private theorem not_size_of_other {key value : Str} {criterion : Criterion}
    (other : key ≠ lit "size")
    (asks : criterionOf (sizeLimit reported converted) key value = some criterion)
    (negated : Bool) :
    QueryFilter.asSize ⟨criterion, negated⟩ = none := by
  rw [criterionOf, if_neg other] at asks
  split at asks
  · cases asks
    rfl
  · split at asks
    · cases asks
      rfl
    · split at asks
      · cases asks
        rfl
      · cases asks

private theorem filterWord_size {word value : Str} :
    filterWord word = some (lit "size", value) ↔ filterValue (lit "size") word = some value :=
  filterWord_eq_some.trans (and_iff_right (by decide))

private theorem sizeWord_eq (before : Bool) (word : Str) :
    (((filterWord word).bind fun parts =>
      criterionOf (sizeLimit reported converted) parts.1 parts.2).bind fun criterion =>
        QueryFilter.asSize ⟨criterion, before⟩) =
      (sizeWord (before, word)).bind (listedSize reported converted) := by
  rw [sizeWord]
  cases found : filterValue (lit "size") word with
  | some value =>
    rw [filterWord_size.mpr found, Option.bind_some, criterionOf_size, Option.bind_some]
    cases sizeParts value with
    | none => rfl
    | some parts =>
      obtain ⟨greater, number, unit⟩ := parts
      dsimp only [Option.bind_some, Option.map_some, listedSize]
      cases sizeLimit reported converted number unit with
      | none => rfl
      | some limit => rfl
  | none =>
    -- a filter of another key, or none at all
    rw [Option.bind_none, Option.map_none, Option.bind_none, Option.bind_eq_none_iff]
    intro criterion asks
    obtain ⟨⟨key, value⟩, parts, asks⟩ := Option.bind_eq_some_iff.mp asks
    refine not_size_of_other ?_ asks before
    rintro rfl
    rw [filterWord_size.mp parts] at found
    cases found

theorem sizes_listed (words : List Str) :
    (filtersFrom (sizeLimit reported converted) false words).filterMap QueryFilter.asSize =
      (acceptedSizes words).filterMap (listedSize reported converted) := by
  rw [filterMap_filtersFrom
    (fun word => (sizeWord word).bind (listedSize reported converted)) sizeWord_eq,
    acceptedSizes, List.filterMap_filterMap]

private theorem stopsAt_iff {word : Str} (before : Bool) :
    StopsAt (sizeLimit reported converted) word ↔
    ∃ size, sizeWord (before, word) = some size ∧ listedSize reported converted size = none := by
  constructor
  · rintro ⟨key, value, found, rfl, greater, number, unit, parts, unread⟩
    refine ⟨⟨before, greater, number, unit⟩, ?_, ?_⟩
    · rw [sizeWord, filterWord_size.mp found, Option.bind_some, parts]
      rfl
    · rw [listedSize, unread]
      rfl
  · rintro ⟨size, states, unread⟩
    obtain ⟨⟨greater, number, unit⟩, parts, rfl⟩ := Option.map_eq_some_iff.mp states
    obtain ⟨value, found, parts⟩ := Option.bind_eq_some_iff.mp parts
    exact ⟨lit "size", value, filterWord_size.mpr found, rfl, greater, number, unit, parts,
      Option.map_eq_none_iff.mp unread⟩

private theorem marked_snd (before : Bool) (words : List Str) :
    (marked before words).map Prod.snd = words :=
  List.map_snd_zip (by simp)

/-- The parser stops at a size that `std::stod` throws on, and otherwise lists all that the pattern
and the units accept. -/
theorem parse_sizes {splitString : Str → Str → List Str} (splits : SplitsString splitString)
    {query : Str} {property : List SizeConstrant → Prop} :
    (∃ text filter, parseSearchQuery splitString (sizeLimit reported converted) query =
      some (text, filter) ∧
        property filter.size) ↔
      (∀ size ∈ acceptedSizes (splitWords query),
        (listedSize reported converted size).isSome = true) ∧
        property ((acceptedSizes (splitWords query)).filterMap
          (listedSize reported converted)) := by
  obtain ⟨stops, reads⟩ := parseSearchQuery_filters splits (sizeLimit reported converted) query
  -- the parser stops at a word exactly when the size that it states is not read
  have stopped : (∃ word ∈ splitWords query, StopsAt (sizeLimit reported converted) word) ↔
      ∃ size ∈ acceptedSizes (splitWords query), listedSize reported converted size = none := by
    constructor
    · rintro ⟨word, member, stops⟩
      rw [← marked_snd false (splitWords query)] at member
      obtain ⟨⟨before, word⟩, inside, rfl⟩ := List.mem_map.mp member
      obtain ⟨size, states, unread⟩ := (stopsAt_iff before).mp stops
      exact ⟨size, List.mem_filterMap.mpr ⟨_, inside, states⟩, unread⟩
    · rintro ⟨size, member, unread⟩
      obtain ⟨⟨before, word⟩, member, states⟩ := List.mem_filterMap.mp member
      refine ⟨word, ?_, (stopsAt_iff before).mpr ⟨size, states, unread⟩⟩
      rw [← marked_snd false (splitWords query)]
      exact List.mem_map.mpr ⟨_, member, rfl⟩
  by_cases unread : ∃ size ∈ acceptedSizes (splitWords query),
    listedSize reported converted size = none
  · -- one size is not read, and the query throws
    have none := stops (stopped.mpr unread)
    obtain ⟨size, member, unread⟩ := unread
    refine iff_of_false ?_ fun both => ?_
    · rintro ⟨text, filter, parsed, -⟩
      rw [none] at parsed
      cases parsed
    · have read := both.1 size member
      rw [unread] at read
      cases read
  · -- all sizes are read, and they are those in the list of constraints
    have all : ∀ size ∈ acceptedSizes (splitWords query),
        (listedSize reported converted size).isSome = true :=
      fun size member => Option.isSome_iff_ne_none.mpr fun unread' => unread ⟨size, member, unread'⟩
    obtain ⟨text, parsed⟩ := reads fun word member stop => unread (stopped.mp ⟨word, member, stop⟩)
    rw [and_iff_right all, ← sizes_listed]
    exact exists_parsed_iff parsed

/-- Some elements of a list are related to what all of them give exactly if these are all, and each
is related to what it gives. -/
private theorem forall₂_filter_filterMap {α β : Type} {related : α → β → Prop}
    {gives : α → Option β} {kept : α → Bool} {l : List α} :
    (∀ a ∈ l, (gives a).isSome = true) ∧ List.Forall₂ related (l.filter kept) (l.filterMap gives) ↔
      ∀ a ∈ l, kept a = true ∧ ∃ b, gives a = some b ∧ related a b := by
  constructor
  · rintro ⟨all, pairs⟩
    -- nothing is dropped by `gives`, so nothing by `kept`
    have size : (l.filterMap gives).length = l.length := by
      rw [List.filterMap_length_eq_length]
      exact all
    have kept_all : ∀ a ∈ l, kept a = true := by
      rw [← List.length_filter_eq_length_iff, pairs.length_eq, size]
    rw [List.filter_eq_self.mpr kept_all] at pairs
    clear size
    induction l with
    | nil => exact fun a member => absurd member List.not_mem_nil
    | cons a l ih =>
      obtain ⟨first, others⟩ := List.forall_mem_cons.mp all
      obtain ⟨kept_first, kept_others⟩ := List.forall_mem_cons.mp kept_all
      obtain ⟨b, given⟩ := Option.isSome_iff_exists.mp first
      rw [List.filterMap_cons_some given] at pairs
      obtain ⟨pair, pairs⟩ := List.forall₂_cons.mp pairs
      exact List.forall_mem_cons.mpr ⟨⟨kept_first, b, given, pair⟩, ih others pairs kept_others⟩
  · intro each
    refine ⟨fun a member => ?_, ?_⟩
    · obtain ⟨-, b, given, -⟩ := each a member
      rw [given]
      rfl
    · rw [List.filter_eq_self.mpr fun a member => (each a member).1]
      induction l with
      | nil => exact .nil
      | cons a l ih =>
        obtain ⟨⟨-, b, given, pair⟩, others⟩ := List.forall_mem_cons.mp each
        rw [List.filterMap_cons_some given]
        exact .cons pair (ih others)

/-! ### Numbers and limits -/

private theorem number_of_accepted {words : List Str} {size : SizeWord}
    (accepted : size ∈ acceptedSizes words) :
    (∀ c ∈ size.number, c = fullStop ∨ isdigit c = true) ∧ 1 ≤ size.unit.toNat := by
  obtain ⟨word, -, states⟩ := List.mem_filterMap.mp accepted
  obtain ⟨⟨greater, number, unit⟩, parts, rfl⟩ := Option.map_eq_some_iff.mp states
  obtain ⟨value, -, parts⟩ := Option.bind_eq_some_iff.mp parts
  obtain ⟨⟨greater', number', letters⟩, matched, made⟩ := Option.bind_eq_some_iff.mp parts
  obtain ⟨unit', known, same⟩ := Option.map_eq_some_iff.mp made
  cases same
  refine ⟨?_, parseSizeUnits_pos known⟩
  -- the pattern takes digits and points for a number
  cases value with
  | nil => cases matched
  | cons sign value =>
    simp only [matchSize] at matched
    split at matched
    · cases matched
      intro c member
      simpa using List.mem_takeWhile_imp member
    · cases matched

/-- `std::stod` finds a digit in a proper number. -/
private theorem digits_of_proper {number : Str}
    (chars : ∀ c ∈ number, c = fullStop ∨ isdigit c = true) (proper : ProperNumber number) :
    ¬(wholeDigits number = [] ∧ fractionDigits number = []) := by
  rintro ⟨no_whole, no_fraction⟩
  obtain ⟨one_point, d, member, digit⟩ := proper
  cases number with
  | nil => cases member
  | cons c rest =>
    have no_digit : isdigit c = false := by
      rw [wholeDigits, List.takeWhile_cons] at no_whole
      split at no_whole
      · cases no_whole
      next other => exact Bool.eq_false_iff.mpr other
    have point : c = fullStop := (chars c List.mem_cons_self).resolve_right (by simp [no_digit])
    subst point
    -- behind the only point there are digits only
    rw [List.count_cons_self] at one_point
    have no_point : fullStop ∉ rest := List.count_eq_zero.mp (by omega)
    have digits : ∀ x ∈ rest, isdigit x = true := fun x inside =>
      (chars x (List.mem_cons_of_mem _ inside)).resolve_left fun same => no_point (same ▸ inside)
    rw [fractionDigits, List.dropWhile_cons_of_neg (by simp [no_digit])] at no_fraction
    simp only [if_true, List.takeWhile_eq_self_iff.mpr digits] at no_fraction
    subst no_fraction
    rcases List.mem_singleton.mp member with rfl
    rw [no_digit] at digit
    cases digit

private theorem decimalValue_nonneg (number : Str) : 0 ≤ decimalValue number := by
  rw [decimalValue]
  positivity

/-- A product is below 2^64 as a `double` if it is up to the middle between that and the number
before. -/
private theorem toDouble_lt_iff {x : Rat} (nonneg : 0 ≤ x) :
    toDouble x < 2 ^ 64 ↔ x < 2 ^ 64 - 2 ^ 10 := by
  have bound : toDouble x < 2 ^ (64 : Int) ↔
      x < 2 ^ (64 : Int) - 2 ^ ((64 : Int) - (53 : Nat) - 1) :=
    Rounding.nearest_lt_pow_iff (by decide) (by decide) nonneg
  norm_num at bound ⊢
  exact bound

/-- What fits is cut to its whole part. -/
theorem toSizeT_of_fits {x : Rat} (nonneg : 0 ≤ x) (fits : x < 2 ^ 64) :
    ((toSizeT converted x).toNat : Rat) ≤ x ∧ x < (toSizeT converted x).toNat + 1 := by
  have below : ⌊x⌋₊ < 2 ^ 64 := (Nat.floor_lt nonneg).mpr (by exact_mod_cast fits)
  rw [toSizeT, if_pos fits, UInt64.toNat_ofNat_of_lt' below]
  exact ⟨Nat.floor_le nonneg, Nat.lt_floor_add_one x⟩

/-- A proper number becomes a limit that is right exactly if the product is below the range. -/
theorem listedSize_stores_iff {size : SizeWord}
    (chars : ∀ c ∈ size.number, c = fullStop ∨ isdigit c = true) (unit : 1 ≤ size.unit.toNat)
    (proper : ProperNumber size.number) :
    (∃ constrant, listedSize reported converted size = some constrant ∧ Stores size constrant) ↔
      toDouble (decimalValue size.number) * size.unit.toNat < 2 ^ 64 - 2 ^ 10 ∧
        ¬Underflows reported (decimalValue size.number) := by
  have nonneg : 0 ≤ toDouble (decimalValue size.number) :=
    Rounding.nearest_nonneg (decimalValue_nonneg _)
  have product_nonneg : 0 ≤ toDouble (decimalValue size.number) * size.unit.toNat :=
    mul_nonneg nonneg (Nat.cast_nonneg _)
  rw [listedSize, sizeLimit, stod,
    if_neg (digits_of_proper chars proper), ← toDouble_lt_iff product_nonneg]
  constructor
  · -- a size that is stored is below what a `size_t` holds
    rintro ⟨constrant, listed, -, -, below⟩
    split at listed
    · cases listed
    · split at listed
      · cases listed
      next reads =>
        have fits : (constrant.size.toNat : Rat) + 1 ≤ 2 ^ 64 := by
          exact_mod_cast (constrant.size.toNat_lt : constrant.size.toNat < 2 ^ 64)
        exact ⟨below.trans_le fits, reads⟩
  · rintro ⟨fits, reads⟩
    -- a product in range has a factor in the range of a double
    have bounded : ¬2 ^ 1024 ≤ toDouble (decimalValue size.number) := by
      have below := (toDouble_lt_iff product_nonneg).mp fits
      have scaled := le_mul_of_one_le_right nonneg
        (by exact_mod_cast unit : (1 : Rat) ≤ size.unit.toNat)
      have larger : (2 : Rat) ^ 64 ≤ 2 ^ 1024 := pow_le_pow_right₀ one_le_two (by decide)
      rw [not_le]
      exact (scaled.trans_lt below).trans_le ((sub_le_self _ (by positivity)).trans larger)
    rw [if_neg bounded, if_neg reads]
    exact ⟨_, rfl, rfl, toSizeT_of_fits (Rounding.nearest_nonneg product_nonneg) fits⟩

end Parse

/-- The parser returns, skips malformed sizes and stores limits that fit, exactly if every size that
the pattern and the units accept has a number that can be read and whose product with the unit
fits. -/
theorem sizesHandled_iff {splitString : Str → Str → List Str} (splits : SplitsString splitString)
    (reported : Rat → Bool) (converted : Rat → UInt64) (query : Str) :
    SizesHandled splitString reported converted query ↔
      ∀ size ∈ acceptedSizes (splitWords query), size.Fits reported := by
  rw [SizesHandled, parse_sizes splits, statedSizes, forall₂_filter_filterMap]
  refine forall₂_congr fun size member => ?_
  obtain ⟨chars, unit⟩ := number_of_accepted member
  rw [decide_eq_true_iff, SizeWord.Fits]
  exact and_congr_right (listedSize_stores_iff chars unit)

/-! Small numbers are doubles. -/

theorem decimalValue_four : decimalValue (lit "4") = 4 := by
  rw [decimalValue, show digitsVal (wholeDigits (lit "4") ++ fractionDigits (lit "4")) = 4 by
    decide, show (fractionDigits (lit "4")).length = 0 by decide]
  norm_num

theorem toDouble_four : toDouble 4 = 4 := by
  have power : Rounding.nearest 53 (-1074) (2 ^ (2 : Int)) = 2 ^ (2 : Int) :=
    Rounding.nearest_pow (by decide) (by decide)
  norm_num at power
  exact power

theorem sizesHandled_iff_four :
    SizesHandled Bytes.splitString (fun _ => false) (fun _ => 0) (lit "linux NOT size:>4k") := by
  apply (sizesHandled_iff (fun _ _ => rfl) _ _ _).mpr
  have accepted : acceptedSizes (splitWords (lit "linux NOT size:>4k")) =
      [⟨true, true, lit "4", 1000⟩] := by
    decide
  rw [accepted, List.forall_mem_singleton, SizeWord.Fits, decimalValue_four, toDouble_four]
  have unit : (1000 : UInt64).toNat = 1000 := rfl
  refine ⟨by decide, ?_, by simp [Underflows]⟩
  rw [unit]
  norm_num

/-- A lone point is taken for a number, and `std::stod` throws. -/
theorem lone_point_throws :
    parseSearchQuery Bytes.splitString (sizeLimit (fun _ => false) fun _ => 0) (lit "size:>.") =
      none ∧
      ¬SizesHandled Bytes.splitString (fun _ => false) (fun _ => 0) (lit "size:>.") := by
  have stops : parseSearchQuery Bytes.splitString (sizeLimit (fun _ => false) fun _ => 0)
      (lit "size:>.") = none := by decide
  refine ⟨stops, ?_⟩
  rintro ⟨text, filter, parsed, -⟩
  rw [stops] at parsed
  cases parsed

end Tlgs
