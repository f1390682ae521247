import Tlgs.Search.Filter

/-!
# Pages of search results

The page number is the last segment of the request path. The slice that
`tlgs_search` iterates over is computed from it in 64-bit unsigned arithmetic and
added to an iterator, which is an address: what is added counts as often as an
element has bytes, and two iterators are compared as addresses.
-/
namespace Tlgs

open Bytes

/-- `std::vector<RankedResult>`: its elements, 88 bytes each, lie one behind the other
from `data` on, and the address behind the last one is one, too. -/
structure RankedResults where
  items : List RankedResult
  data : UInt64
  fits : data.toNat + 88 * items.length < 2 ^ 64

/-- `tlgs::try_strtoull`. -/
def tryStrtoull (str : Str) : Option UInt64 :=
  let (result, rest) := strtoull (cStr str)
  if rest = cStr str ∨ rest ≠ [] then none else some result

theorem tryStrtoull_decimal (n : Nat) (fits : n < 2 ^ 64) :
    tryStrtoull (decimal n) = some (UInt64.ofNat n) := by
  have consumed : [] ≠ decimal n := (decimal_ne_nil n).symm
  have small : ¬2 ^ 64 ≤ n := by omega
  simp only [tryStrtoull, cStr_decimal, strtoull, scanNumber_decimal, digitsVal_decimal,
    if_neg small, Bool.false_eq_true, if_false, consumed, ne_eq, not_true_eq_false, or_self]

/-- `page` in `tlgs_search`. -/
def requestedPage (segment : Str) : UInt64 := (tryStrtoull segment).getD 1

def itemPerPage : UInt64 := 10

/-- `sizeof(RankedResult)` -/
def sizeofRankedResult : UInt64 := 88

namespace RankedResults

variable (results : RankedResults)

def size : UInt64 := UInt64.ofNat results.items.length

/-- `begin() + n` -/
def beginPlus (n : UInt64) : UInt64 := results.data + sizeofRankedResult * n

/-- `begin` and `end`, after the guard. -/
def sliceBounds (page : UInt64) : UInt64 × UInt64 :=
  let currentPageIdx := page - 1
  let first := results.beginPlus (itemPerPage * currentPageIdx)
  let pastLast := itemPerPage * (currentPageIdx + 1)
  let last := results.beginPlus (if results.size < pastLast then results.size else pastLast)
  (if first > last then last else first, last)

/-- Which element an iterator points to, or that it is behind the last one. -/
def offset (iterator : UInt64) : Option Nat :=
  let distance := (iterator - results.data).toNat
  if 88 ∣ distance ∧ distance ≤ 88 * results.items.length then some (distance / 88) else none

/-- `[begin, end)` is a slice of the vector. -/
def Slice (bounds : UInt64 × UInt64) : Prop :=
  ∃ first ∈ results.offset bounds.1, ∃ last ∈ results.offset bounds.2, first ≤ last

instance (bounds : UInt64 × UInt64) : Decidable (results.Slice bounds) :=
  inferInstanceAs (Decidable (∃ _ ∈ _, ∃ _ ∈ _, _))

/-- `std::ranges::subrange(begin, end)` over a vector; `none` when an iterator lies
outside of it or within an element, where reading is undefined. -/
def subrange (bounds : UInt64 × UInt64) : Option (List RankedResult) :=
  match results.offset bounds.1, results.offset bounds.2 with
  | some first, some last =>
    if first ≤ last then some ((results.items.drop first).take (last - first)) else none
  | _, _ => none

end RankedResults

/-- The items shown for a request whose path ends in `segment`. -/
def pageItems (segment : Str) (filtered : RankedResults) : Option (List RankedResult) :=
  filtered.subrange (filtered.sliceBounds (requestedPage segment))

/-! ### Windows of a list -/

/-- Adjacent windows of one width, cut off at the end of the list, make up the list. -/
theorem flatMap_windows {α : Type} (width count : Nat) (xs : List α) :
    (List.range count).flatMap (fun i => (xs.drop (width * i)).take width) =
      xs.take (width * count) := by
  induction count with
  | zero => simp
  | succ count ih =>
    rw [List.range_succ, List.flatMap_append, ih, List.flatMap_singleton, Nat.mul_succ]
    exact List.take_add.symm

/-! ### The bounds in plain arithmetic -/

/-- How many bytes `begin` lies behind the first element, modulo 2^64 and before the guard. -/
def firstByte (page : UInt64) : Nat := 880 * (page - 1).toNat % 2 ^ 64

/-- The element that `end` points to. -/
def lastOffset (page : UInt64) (size : Nat) : Nat := min (10 * page.toNat % 2 ^ 64) size

namespace RankedResults

variable (results : RankedResults)

theorem size_toNat : results.size.toNat = results.items.length := by
  have fits := results.fits
  rw [size, UInt64.toNat_ofNat']
  exact Nat.mod_eq_of_lt (by omega)

theorem beginPlus_toNat (n : UInt64) :
    (results.beginPlus n).toNat = (results.data.toNat + 88 * n.toNat) % 2 ^ 64 := by
  have width : sizeofRankedResult.toNat = 88 := rfl
  rw [beginPlus, UInt64.toNat_add, UInt64.toNat_mul, width, Nat.add_mod_mod]

theorem lastOffset_le (page : UInt64) :
    lastOffset page results.items.length ≤ results.items.length :=
  Nat.min_le_right _ _

/-- Before the guard. -/
theorem begin_toNat (page : UInt64) :
    (results.beginPlus (itemPerPage * (page - 1))).toNat =
      (results.data.toNat + firstByte page) % 2 ^ 64 := by
  have ten : itemPerPage.toNat = 10 := rfl
  rw [beginPlus_toNat, UInt64.toNat_mul, ten, firstByte]
  omega

theorem end_toNat (page : UInt64) :
    (results.sliceBounds page).2.toNat =
      results.data.toNat + 88 * lastOffset page results.items.length := by
  have fits := results.fits
  have ten : itemPerPage.toNat = 10 := rfl
  have pastLast : (itemPerPage * (page - 1 + 1)).toNat = 10 * page.toNat % 2 ^ 64 := by
    rw [UInt64.sub_add_cancel, UInt64.toNat_mul, ten]
  simp only [sliceBounds, beginPlus_toNat]
  -- either way the smaller one is at most the size, which does not wrap around
  split
  next less =>
    rw [UInt64.lt_iff_toNat_lt, size_toNat, pastLast] at less
    rw [size_toNat, lastOffset, Nat.min_eq_right (by omega)]
    omega
  next less =>
    rw [UInt64.lt_iff_toNat_lt, size_toNat, pastLast] at less
    rw [pastLast, lastOffset, Nat.min_eq_left (by omega)]
    omega

theorem offset_of_inside {iterator : UInt64} {n : Nat} (bounded : n ≤ results.items.length)
    (inside : iterator.toNat = results.data.toNat + 88 * n) : results.offset iterator = some n := by
  have distance : (iterator - results.data).toNat = 88 * n := by
    rw [UInt64.toNat_sub_of_le _ _ (UInt64.le_iff_toNat_le.mpr (by omega))]
    omega
  have within : 88 ∣ 88 * n ∧ 88 * n ≤ 88 * results.items.length :=
    ⟨Nat.dvd_mul_right _ _, by omega⟩
  simp only [offset, distance, if_pos within]
  congr 1
  omega

/-- An iterator between the elements or outside of the vector. -/
theorem offset_eq_none {iterator : UInt64}
    (outside : ∀ n ≤ results.items.length, iterator.toNat ≠ results.data.toNat + 88 * n) :
    results.offset iterator = none := by
  have fits := results.fits
  have bound := iterator.toNat_lt
  have distance := UInt64.toNat_sub iterator results.data
  simp only [offset]
  refine if_neg fun ⟨whole, near⟩ => ?_
  obtain ⟨n, times⟩ := whole
  exact outside n (by omega) (by omega)

/-- The slice lies in the vector exactly when `begin` does not wrap around to an address before it
and points to an element, or is behind `end`. -/
theorem subrange_sliceBounds (page : UInt64) :
    results.subrange (results.sliceBounds page) =
      if results.data.toNat + firstByte page < 2 ^ 64 ∧
          (88 ∣ firstByte page ∨ 88 * lastOffset page results.items.length < firstByte page) then
        some ((results.items.drop (firstByte page / 88)).take
          (lastOffset page results.items.length - firstByte page / 88))
      else none := by
  have fits := results.fits
  have bounded := results.lastOffset_le page
  have start := results.begin_toNat page
  have finish := results.end_toNat page
  have last := results.offset_of_inside bounded finish
  have below : firstByte page < 2 ^ 64 := Nat.mod_lt _ (by omega)
  have first : (results.sliceBounds page).1 =
      if results.beginPlus (itemPerPage * (page - 1)) > (results.sliceBounds page).2 then
        (results.sliceBounds page).2
      else results.beginPlus (itemPerPage * (page - 1)) := rfl
  generalize lastOffset page results.items.length = l at *
  by_cases forward : results.data.toNat + firstByte page < 2 ^ 64
  · rw [Nat.mod_eq_of_lt forward] at start
    by_cases past : 88 * l < firstByte page
    · -- `begin` is set to `end`
      have clamped : (results.sliceBounds page).1 = (results.sliceBounds page).2 := by
        rw [first, if_pos]
        rw [gt_iff_lt, UInt64.lt_iff_toNat_lt]
        omega
      have nothing : l - firstByte page / 88 = 0 := by omega
      rw [if_pos ⟨forward, .inr past⟩, nothing, List.take_zero, subrange, clamped, last]
      simp
    · have kept : (results.sliceBounds page).1 = results.beginPlus (itemPerPage * (page - 1)) := by
        rw [first, if_neg]
        rw [gt_iff_lt, UInt64.lt_iff_toNat_lt]
        omega
      by_cases whole : 88 ∣ firstByte page
      · have begins := @offset_of_inside results (results.sliceBounds page).1
          (firstByte page / 88) (by omega) (by rw [kept]; omega)
        have ordered : firstByte page / 88 ≤ l := by omega
        rw [if_pos ⟨forward, .inl whole⟩, subrange, begins, last]
        simp only [if_pos ordered]
      · -- in the middle of an element
        have begins := @offset_eq_none results (results.sliceBounds page).1
          fun n _ => by rw [kept]; omega
        have unsound : ¬(results.data.toNat + firstByte page < 2 ^ 64 ∧
            (88 ∣ firstByte page ∨ 88 * l < firstByte page)) :=
          fun sound => sound.2.elim whole past
        rw [if_neg unsound, subrange, begins]
  · -- before the vector, which the guard `begin > end` lets pass
    have kept : (results.sliceBounds page).1 = results.beginPlus (itemPerPage * (page - 1)) := by
      rw [first, if_neg]
      rw [gt_iff_lt, UInt64.lt_iff_toNat_lt]
      omega
    have begins := @offset_eq_none results (results.sliceBounds page).1
      fun n _ => by rw [kept]; omega
    rw [if_neg fun sound => forward sound.1, subrange, begins]

theorem slice_iff_subrange (bounds : UInt64 × UInt64) :
    results.Slice bounds ↔ (results.subrange bounds).isSome := by
  rw [Slice, subrange]
  cases results.offset bounds.1 with
  | none => simp
  | some first =>
    cases results.offset bounds.2 with
    | none => simp
    | some last => by_cases ordered : first ≤ last <;> simp [ordered]

end RankedResults

/-- Page `i + 1` of a vector that reaches up to that page. -/
theorem pageItems_of_requested {segment : Str} {filtered : RankedResults} {i : Nat}
    (requested : requestedPage segment = UInt64.ofNat (i + 1))
    (within : 10 * i ≤ filtered.items.length) :
    pageItems segment filtered = some ((filtered.items.drop (10 * i)).take 10) := by
  have fits := filtered.fits
  have shifted : UInt64.ofNat (i + 1) - 1 = UInt64.ofNat i := by
    rw [UInt64.ofNat_add]
    exact UInt64.add_sub_cancel ..
  have first : firstByte (UInt64.ofNat (i + 1)) = 880 * i := by
    rw [firstByte, shifted, UInt64.toNat_ofNat']
    omega
  have last : lastOffset (UInt64.ofNat (i + 1)) filtered.items.length =
      min (10 * (i + 1)) filtered.items.length := by
    rw [lastOffset, UInt64.toNat_ofNat']
    congr 1
    omega
  have offset : 880 * i / 88 = 10 * i := by omega
  rw [pageItems, RankedResults.subrange_sliceBounds, requested, first, last, offset,
    if_pos ⟨by omega, .inl (by omega)⟩]
  congr 1
  rw [List.take_eq_take_iff, List.length_drop]
  omega

/-- The page numbers that `count` segments ask for are `1, …, count` in order. -/
def RequestsPages (segments : List Str) (count : Nat) : Prop :=
  segments.map requestedPage = (List.range count).map fun i => UInt64.ofNat (i + 1)

def pageCount (filtered : RankedResults) : Nat := (filtered.items.length + 9) / 10

/-- All pages in order show the vector, each item once. -/
theorem pages_cover {segments : List Str} {filtered : RankedResults}
    (requests : RequestsPages segments (pageCount filtered)) :
    (segments.mapM (fun segment => pageItems segment filtered)).map List.flatten =
      some filtered.items := by
  -- every page is asked for once, in order
  have each : segments.map (fun segment => pageItems segment filtered) =
      (List.range (pageCount filtered)).map
        (fun i => some ((filtered.items.drop (10 * i)).take 10)) := by
    apply List.ext_getElem
    · simpa [RequestsPages] using congrArg List.length requests
    · intro i left right
      have bound : i < pageCount filtered := by simpa using right
      have asked := List.getElem_of_eq requests (i := i) (by simpa using left)
      simp only [List.getElem_map, List.getElem_range] at asked ⊢
      exact pageItems_of_requested asked (by simp only [pageCount] at bound; omega)
  have gathered : segments.mapM (fun segment => pageItems segment filtered) =
      some ((List.range (pageCount filtered)).map
        (fun i => (filtered.items.drop (10 * i)).take 10)) := by
    calc segments.mapM (fun segment => pageItems segment filtered)
        = (segments.map (fun segment => pageItems segment filtered)).mapM id := by
          rw [List.mapM_map]
          rfl
      _ = (List.range (pageCount filtered)).mapM
            (fun i => pure ((filtered.items.drop (10 * i)).take 10)) := by
          rw [each, List.mapM_map]
          rfl
      _ = _ := List.mapM_pure
  -- the pages reach to the last result
  have whole : filtered.items.length ≤ 10 * pageCount filtered := by
    simp only [pageCount]
    omega
  rw [gathered, Option.map_some, ← List.flatMap_def, flatMap_windows, List.take_of_length_le whole]

/-- The pages that a list of decimal segments asks for. -/
theorem requestsPages_decimal (count : Nat) (fits : count < 2 ^ 64) :
    RequestsPages ((List.range count).map fun i => decimal (i + 1)) count := by
  rw [RequestsPages, List.map_map]
  apply List.map_congr_left
  intro i member
  have bound : i < count := List.mem_range.mp member
  rw [Function.comp_apply, requestedPage, tryStrtoull_decimal _ (by omega), Option.getD_some]

/-- The slice lies in the vector, and the pages from the first to the last full or
partial one show each item once, exactly when the bytes between the first element and
`begin` do not lead beyond the greatest address, and they make up whole elements
or lead behind `end`. -/
theorem page_slices_sound_iff (segment : Str) (filtered : RankedResults) :
    (filtered.Slice (filtered.sliceBounds (requestedPage segment)) ∧
      ∀ segments, RequestsPages segments (pageCount filtered) →
        (segments.mapM (fun segment => pageItems segment filtered)).map List.flatten =
          some filtered.items) ↔
    filtered.data.toNat + firstByte (requestedPage segment) < 2 ^ 64 ∧
      (88 ∣ firstByte (requestedPage segment) ∨
        88 * lastOffset (requestedPage segment) filtered.items.length <
          firstByte (requestedPage segment)) := by
  rw [and_iff_left (fun _ requests => pages_cover requests), RankedResults.slice_iff_subrange,
    RankedResults.subrange_sliceBounds]
  split
  next sound => exact iff_of_true rfl sound
  next unsound => exact iff_of_false Bool.false_ne_true unsound

/-- For page zero the slice starts ten elements before the vector, and for a page whose bytes
wrap around it starts eight elements before it. -/
theorem page_zero_out_of_bounds :
    let filtered : RankedResults :=
      ⟨[⟨lit "gemini://localhost/", lit "text/gemini", 4, 7, 1⟩], 93824992231424, by decide⟩
    filtered.sliceBounds (requestedPage (lit "0")) = (filtered.data - 880, filtered.data) ∧
      ¬filtered.Slice (filtered.sliceBounds (requestedPage (lit "0"))) ∧
      pageItems (lit "0") filtered = none ∧
      filtered.sliceBounds (requestedPage (lit "922337203685477581")) =
        (filtered.data - 704, filtered.data + 88) ∧
      ¬filtered.Slice (filtered.sliceBounds (requestedPage (lit "922337203685477581"))) := by
  decide

end Tlgs
