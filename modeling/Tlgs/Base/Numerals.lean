import Tlgs.Base.Bytes
import Mathlib.Data.List.TakeWhile
import Mathlib.Algebra.Group.Int.Defs
import Mathlib.Algebra.Group.Nat.Defs

/-!
# Numbers in text

`std::to_string` for naturals, and the conversions of the C library that read a
number from the front of a string: optional white space, an optional sign, and as
many decimal digits as follow. All of them read a C string, which ends at the first
NUL byte.
-/
namespace Bytes

/-- `std::to_string` of an unsigned number. -/
def decimal (n : Nat) : Str := (Nat.toDigits 10 n).map Char.toUInt8

/-- The value of a run of decimal digits. -/
def digitsVal (ds : Str) : Nat := ds.foldl (fun v c => 10 * v + (c.toNat - 48)) 0

/-- What a function taking `s.c_str()` sees. -/
def cStr (s : Str) : Str := s.takeWhile (· != 0)

def readSign : Str → Bool × Str
  | 43 :: s => (false, s)
  | 45 :: s => (true, s)
  | s => (false, s)

/-- The number at the front of a C string, with its sign and the text left after it;
`none` when no digit follows the optional white space and sign. -/
def scanNumber (s : Str) : Option (Bool × Str × Str) :=
  let (negative, s) := readSign (s.dropWhile isspace)
  match s.takeWhile isdigit with
  | [] => none
  | d :: ds => some (negative, d :: ds, s.dropWhile isdigit)

/-- `std::stoi`: `none` stands for the two exceptions it throws, `invalid_argument`
and `out_of_range`. Text after the number is ignored. -/
def stoi (s : Str) : Option Int :=
  match scanNumber (cStr s) with
  | none => none
  | some (negative, ds, _) =>
    let value : Int := if negative then -(digitsVal ds : Int) else digitsVal ds
    if -2147483648 ≤ value ∧ value ≤ 2147483647 then some value else none

/-- `strtoull` in base ten: the value and the text `endptr` is left at. Without digits
nothing is consumed; a value that does not fit becomes `ULLONG_MAX`; a minus sign
negates modulo 2^64. -/
def strtoull (s : Str) : UInt64 × Str :=
  match scanNumber s with
  | none => (0, s)
  | some (negative, ds, rest) =>
    let value := digitsVal ds
    if 2 ^ 64 ≤ value then (UInt64.ofNat (2 ^ 64 - 1), rest)
    else (if negative then 0 - UInt64.ofNat value else UInt64.ofNat value, rest)

/-! ### Digits of a printed number -/

private theorem toUInt8_toNat_of_digit {c : Char} (digit : c.isDigit = true) :
    c.toUInt8.toNat = c.toNat := by
  have range : 48 ≤ c.toNat ∧ c.toNat ≤ 57 := by
    simpa [Char.isDigit, UInt32.le_iff_toNat_le] using digit
  simp only [Char.toUInt8, UInt32.toNat_toUInt8]
  have : c.val.toNat = c.toNat := rfl
  omega

theorem isdigit_of_mem_decimal {n : Nat} {c : UInt8} (member : c ∈ decimal n) :
    isdigit c = true := by
  obtain ⟨d, from_digits, rfl⟩ := List.mem_map.mp member
  have digit : d.isDigit = true := Nat.isDigit_of_mem_toDigits (by omega) (by omega) from_digits
  have range : 48 ≤ d.toNat ∧ d.toNat ≤ 57 := by
    simpa [Char.isDigit, UInt32.le_iff_toNat_le] using digit
  rw [isdigit_iff, toUInt8_toNat_of_digit digit]
  exact range

theorem decimal_ne_nil (n : Nat) : decimal n ≠ [] := by
  simp [decimal, Nat.toDigits_ne_nil]

private theorem foldl_digits (ds : List Char) (init : Nat) (digits : ∀ c ∈ ds, c.isDigit = true) :
    (ds.map Char.toUInt8).foldl (fun v c => 10 * v + (c.toNat - 48)) init =
      Nat.ofDigitChars 10 ds init := by
  induction ds generalizing init with
  | nil => simp
  | cons d ds ih =>
    rw [List.map_cons, List.foldl_cons, Nat.ofDigitChars_cons,
      ih _ (fun c h => digits c (List.mem_cons_of_mem _ h)),
      toUInt8_toNat_of_digit (digits d (List.mem_cons_self ..))]
    rfl

@[simp] theorem digitsVal_decimal (n : Nat) : digitsVal (decimal n) = n := by
  rw [digitsVal, decimal, foldl_digits _ _
    (fun c h => Nat.isDigit_of_mem_toDigits (by omega) (by omega) h)]
  exact Nat.ofDigitChars_ten_toDigits

theorem decimal_injective {m n : Nat} (h : decimal m = decimal n) : m = n := by
  rw [← digitsVal_decimal m, h, digitsVal_decimal]

/-! ### Reading a printed number back -/

private theorem digit_not_space {c : UInt8} (h : isdigit c = true) : isspace c = false := by
  have range := (isdigit_iff c).mp h
  rw [Bool.eq_false_iff]
  intro space
  simp only [isspace, Bool.or_eq_true, beq_iff_eq, Bool.and_eq_true, decide_eq_true_eq,
    UInt8.le_iff_toNat_le] at space
  -- a blank, or one of the characters from tab to carriage return
  rcases space with rfl | ⟨_, high⟩
  · revert range
    decide
  · have : (13 : UInt8).toNat = 13 := rfl
    omega

private theorem readSign_digit {c : UInt8} (s : Str) (h : isdigit c = true) :
    readSign (c :: s) = (false, c :: s) := by
  have range := (isdigit_iff c).mp h
  simp only [readSign]
  split
  · -- a plus sign is no digit
    next equal =>
      cases equal
      exact absurd range (by decide)
  · -- nor is a minus sign
    next equal =>
      cases equal
      exact absurd range (by decide)
  · rfl

theorem scanNumber_digits (ds : Str) (nonempty : ds ≠ []) (digits : ∀ c ∈ ds, isdigit c = true) :
    scanNumber ds = some (false, ds, []) := by
  cases ds with
  | nil => exact absurd rfl nonempty
  | cons d ds =>
    have first : isdigit d = true := digits d (List.mem_cons_self ..)
    have take : (d :: ds).takeWhile isdigit = d :: ds :=
      List.takeWhile_eq_self_iff.mpr digits
    have drop : (d :: ds).dropWhile isdigit = [] :=
      List.dropWhile_eq_nil_iff.mpr digits
    simp only [scanNumber, List.dropWhile_cons, digit_not_space first, Bool.false_eq_true,
      if_false, readSign_digit ds first, take, drop]

theorem cStr_of_not_mem {s : Str} (absent : (0 : UInt8) ∉ s) : cStr s = s := by
  apply List.takeWhile_eq_self_iff.mpr
  intro c member
  simp only [bne_iff_ne, ne_eq]
  rintro rfl
  exact absent member

theorem cStr_digits {ds : Str} (digits : ∀ c ∈ ds, isdigit c = true) : cStr ds = ds :=
  cStr_of_not_mem fun member => absurd (digits 0 member) (by decide)

theorem cStr_decimal (n : Nat) : cStr (decimal n) = decimal n :=
  cStr_digits fun _ => isdigit_of_mem_decimal

theorem scanNumber_decimal (n : Nat) : scanNumber (decimal n) = some (false, decimal n, []) :=
  scanNumber_digits _ (decimal_ne_nil n) (fun _ => isdigit_of_mem_decimal)

/-- Nothing but digits is read whole. -/
theorem stoi_digits {ds : Str} (nonempty : ds ≠ []) (digits : ∀ c ∈ ds, isdigit c = true) :
    stoi ds = if digitsVal ds ≤ 2147483647 then some (digitsVal ds : Int) else none := by
  simp only [stoi, cStr_digits digits, scanNumber_digits ds nonempty digits,
    Bool.false_eq_true, if_false]
  by_cases fits : digitsVal ds ≤ 2147483647
  · rw [if_pos fits, if_pos (by omega)]
  · rw [if_neg fits, if_neg (by omega)]

theorem stoi_decimal (n : Nat) (fits : n ≤ 2147483647) : stoi (decimal n) = some (n : Int) := by
  rw [stoi_digits (decimal_ne_nil n) fun _ =>
    isdigit_of_mem_decimal, digitsVal_decimal, if_pos fits]

end Bytes
