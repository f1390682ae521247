import Tlgs.Base.FormEncoding
import Tlgs.Base.Numerals
import Mathlib.Data.Nat.Digits.Defs

/-!
# Hexadecimal numbers in text

Bytes that are printed as two digits each, and the conversion of the C++ library that reads a
number in base sixteen from the front of a string. A hash that is printed and read again keeps
apart what it kept apart.
-/
namespace Bytes

open FormEncoding

def byteToHex (c : UInt8) : Str := [hexDigit (c.toNat / 16), hexDigit (c.toNat % 16)]

/-- Two capital digits for each byte. -/
def binaryStringToHex (bytes : Str) : Str := bytes.flatMap byteToHex

def isxdigit (c : UInt8) : Bool := (hexValue c).isSome

/-- The value of a run of digits. -/
def hexVal (ds : Str) : Nat := ds.foldl (fun v c => 16 * v + (hexValue c).getD 0) 0

/-- `0x` counts as a prefix only before a digit. -/
def dropHexPrefix : Str → Str
  | 48 :: x :: d :: s => if (x = 120 ∨ x = 88) ∧ isxdigit d then d :: s else 48 :: x :: d :: s
  | s => s

/-- `std::stoull(…, nullptr, 16)`: `none` stands for the two exceptions it throws, and a minus sign
negates modulo 2^64. -/
def stoullHex (s : Str) : Option UInt64 :=
  let (negative, s) := readSign ((cStr s).dropWhile isspace)
  let ds := (dropHexPrefix s).takeWhile isxdigit
  if ds = [] then none
  else if 2 ^ 64 ≤ hexVal ds then none
  else some (if negative then 0 - UInt64.ofNat (hexVal ds) else UInt64.ofNat (hexVal ds))

/-! ### Printed bytes -/

/-- What a digit is not, so that it is read as one. -/
private theorem hexDigit_plain {n : Nat} (small : n < 16) :
    isxdigit (hexDigit n) = true ∧ isspace (hexDigit n) = false ∧ hexDigit n ≠ 0 ∧ hexDigit n ≠ 43 ∧
      hexDigit n ≠ 45 ∧ hexDigit n ≠ 120 ∧ hexDigit n ≠ 88 := by
  have digits : ∀ n < 16, isxdigit (hexDigit n) = true ∧ isspace (hexDigit n) = false ∧
      hexDigit n ≠ 0 ∧
      hexDigit n ≠ 43 ∧ hexDigit n ≠ 45 ∧ hexDigit n ≠ 120 ∧ hexDigit n ≠ 88 := by decide
  exact digits n small

theorem exists_digit {bytes : Str} {c : UInt8} (member : c ∈ binaryStringToHex bytes) :
    ∃ n < 16, c = hexDigit n := by
  obtain ⟨byte, _, digit⟩ := List.mem_flatMap.mp member
  have bound : byte.toNat < 256 := byte.toNat_lt
  simp only [byteToHex, List.mem_cons, List.not_mem_nil, or_false] at digit
  rcases digit with rfl | rfl
  · exact ⟨_, by omega, rfl⟩
  · exact ⟨_, by omega, rfl⟩

theorem hexVal_binaryStringToHex (bytes : Str) :
    hexVal (binaryStringToHex bytes) = Nat.ofDigits 256 (bytes.reverse.map UInt8.toNat) := by
  have from_start : ∀ start, (binaryStringToHex bytes).foldl
      (fun v c => 16 * v + (hexValue c).getD 0) start =
      bytes.foldl (fun v c => 256 * v + c.toNat) start := by
    induction bytes with
    | nil => exact fun _ => rfl
    | cons c bytes ih =>
      intro start
      have bound : c.toNat < 256 := c.toNat_lt
      have both : binaryStringToHex (c :: bytes) = byteToHex c ++ binaryStringToHex bytes := rfl
      rw [both, List.foldl_append, ih, List.foldl_cons]
      simp only [byteToHex, List.foldl_cons, List.foldl_nil,
        hexValue_hexDigit (show c.toNat / 16 < 16 by omega),
        hexValue_hexDigit (show c.toNat % 16 < 16 by omega), Option.getD_some]
      -- two hexadecimal digits are one digit to the base 256
      have halves : 16 * (16 * start + c.toNat / 16) + c.toNat % 16 = 256 * start + c.toNat := by
        omega
      rw [halves]
  rw [hexVal, from_start, Nat.ofDigits_eq_foldr, List.map_reverse, List.foldr_reverse,
    List.foldl_map]
  simp only [Nat.cast_id, add_comm]

theorem hexVal_lt {bytes : Str} (length : bytes.length ≤ 8) :
    hexVal (binaryStringToHex bytes) < 2 ^ 64 := by
  have bound : hexVal (binaryStringToHex bytes) < 256 ^ (bytes.reverse.map UInt8.toNat).length := by
    rw [hexVal_binaryStringToHex]
    refine Nat.ofDigits_lt_base_pow_length (by omega) fun d member => ?_
    obtain ⟨c, _, rfl⟩ := List.mem_map.mp member
    exact c.toNat_lt
  refine bound.trans_le ((Nat.pow_le_pow_right (by omega) ?_ : _ ≤ 256 ^ 8).trans (by norm_num))
  rwa [List.length_map, List.length_reverse]

/-- What was printed is read back. -/
theorem stoullHex_binaryStringToHex {bytes : Str} (some_byte : bytes ≠ [])
    (length : bytes.length ≤ 8) :
    stoullHex (binaryStringToHex bytes) = some
      (UInt64.ofNat (hexVal (binaryStringToHex bytes))) := by
  have whole : cStr (binaryStringToHex bytes) = binaryStringToHex bytes := by
    apply cStr_of_not_mem
    intro member
    obtain ⟨n, small, same⟩ := exists_digit member
    exact (hexDigit_plain small).2.2.1 same.symm
  have digits : (binaryStringToHex bytes).takeWhile isxdigit = binaryStringToHex bytes := by
    refine List.takeWhile_eq_self_iff.mpr fun c member => ?_
    obtain ⟨n, small, rfl⟩ := exists_digit member
    exact (hexDigit_plain small).1
  have bounded := hexVal_lt length
  obtain ⟨c, bytes, rfl⟩ := List.exists_cons_of_ne_nil some_byte
  have bound : c.toNat < 256 := c.toNat_lt
  -- of the first byte's two digits neither is a blank or a sign, and the second is no `x`
  obtain ⟨_, no_space, _, no_plus, no_minus, _⟩ := hexDigit_plain (show c.toNat / 16 < 16 by omega)
  obtain ⟨_, _, _, _, _, no_x, no_capital⟩ := hexDigit_plain (show c.toNat % 16 < 16 by omega)
  have printed : binaryStringToHex (c :: bytes) =
      hexDigit (c.toNat / 16) :: hexDigit (c.toNat % 16) :: binaryStringToHex bytes := rfl
  have no_blanks : (binaryStringToHex (c :: bytes)).dropWhile isspace =
      binaryStringToHex (c :: bytes) := by
    rw [printed, List.dropWhile_cons_of_neg (by simp [no_space])]
  have no_sign : readSign (binaryStringToHex (c :: bytes)) =
      (false, binaryStringToHex (c :: bytes)) := by
    rw [printed, readSign]
    · exact fun _ equal => no_plus (List.cons.inj equal).1
    · exact fun _ equal => no_minus (List.cons.inj equal).1
  -- a first digit 0 could begin a prefix `0x`, but no `x` stands behind it
  have no_prefix : dropHexPrefix (binaryStringToHex (c :: bytes)) =
      binaryStringToHex (c :: bytes) := by
    rw [printed, dropHexPrefix.eq_def]
    split
    next equal =>
      obtain ⟨_, rest⟩ := List.cons.inj equal
      obtain ⟨rfl, _⟩ := List.cons.inj rest
      rw [if_neg fun both => both.1.elim no_x no_capital, equal]
    next => rfl
  simp only [stoullHex, whole, no_blanks, no_sign, no_prefix, digits]
  rw [if_neg (by simp [printed]), if_neg (not_le.mpr bounded)]
  rfl

/-- Of printed texts of eight bytes, the number that is read tells which. -/
theorem binaryStringToHex_of_read {bytes bytes' : Str} (length : bytes.length = 8)
    (length' : bytes'.length = 8)
    (same : stoullHex (binaryStringToHex bytes) = stoullHex (binaryStringToHex bytes')) :
    bytes = bytes' := by
  have some_byte : ∀ {s : Str}, s.length = 8 → s ≠ [] := by
    rintro _ eight rfl
    cases eight
  rw [stoullHex_binaryStringToHex (some_byte length) length.le,
    stoullHex_binaryStringToHex (some_byte length') length'.le] at same
  have values := congrArg UInt64.toNat (Option.some.inj same)
  rw [UInt64.toNat_ofNat_of_lt' (hexVal_lt length.le),
    UInt64.toNat_ofNat_of_lt' (hexVal_lt length'.le),
    hexVal_binaryStringToHex, hexVal_binaryStringToHex] at values
  -- both are numbers to the base 256 with as many digits
  have below : ∀ s : Str, ∀ d ∈ s.reverse.map UInt8.toNat, d < 256 := by
    intro s d member
    obtain ⟨c, _, rfl⟩ := List.mem_map.mp member
    exact c.toNat_lt
  have equal := Nat.ofDigits_inj_of_len_eq (by omega) (by simp [length, length']) (below bytes)
    (below bytes') values
  exact List.reverse_injective (List.map_injective_iff.mpr (fun _ _ => UInt8.toNat_inj.mp) equal)

end Bytes
