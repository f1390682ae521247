import Mathlib.Data.Int.Log
import Mathlib.Data.Rat.Floor
import Mathlib.Algebra.Order.Field.Power
import Mathlib.Tactic.Linarith
import Mathlib.Tactic.Positivity

/-!
# Rounding to binary digits

A number is rounded to the nearest multiple of a unit, and to the even one of two. The unit is
the power of two that leaves a given number of digits, but none below the least one.
-/
namespace Rounding

/-- The nearest integer, of two the even one. -/
def nearestEven (x : Rat) : Int :=
  let below := ⌊x⌋
  if x - below < 1 / 2 then below
  else if 1 / 2 < x - below then below + 1
  else if below % 2 = 0 then below
  else below + 1

theorem nearestEven_cases (x : Rat) : nearestEven x = ⌊x⌋ ∨ nearestEven x = ⌊x⌋ + 1 := by
  simp only [nearestEven]
  split
  · exact .inl rfl
  · split
    · exact .inr rfl
    · split
      · exact .inl rfl
      · exact .inr rfl

/-- An integer at most the number is at most the integer it is rounded to. -/
theorem le_nearestEven {n : Int} {x : Rat} (below : (n : Rat) ≤ x) : n ≤ nearestEven x := by
  have floor : n ≤ ⌊x⌋ := Int.le_floor.mpr below
  rcases nearestEven_cases x with same | next
  · rwa [same]
  · omega

theorem nearestEven_le {n : Int} {x : Rat} (above : x ≤ n) : nearestEven x ≤ n := by
  by_cases floor : ⌊x⌋ < n
  · rcases nearestEven_cases x with same | next <;> omega
  · -- the number is the integer
    have whole : x = n := le_antisymm above (Int.le_floor.mp (not_lt.mp floor))
    have none : x - (⌊x⌋ : Rat) < 1 / 2 := by
      rw [whole, Int.floor_intCast, sub_self]
      norm_num
    rw [nearestEven, if_pos none, whole, Int.floor_intCast]

/-- A number is rounded below an even integer up to the middle before that. -/
theorem nearestEven_lt_iff {n : Int} {x : Rat} (even : n % 2 = 0) :
    nearestEven x < n ↔ x < n - 1 / 2 := by
  have floor_le := Int.floor_le x
  have lt_floor := Int.lt_floor_add_one x
  rcases lt_trichotomy ⌊x⌋ (n - 1) with below | last | above
  · have far : (⌊x⌋ : Rat) + 1 ≤ n - 1 := by exact_mod_cast (by omega : ⌊x⌋ + 1 ≤ n - 1)
    refine iff_of_true ?_ (by linarith)
    rcases nearestEven_cases x with same | next <;> omega
  · -- the integer before is odd
    have cast : (⌊x⌋ : Rat) = n - 1 := by exact_mod_cast last
    have odd : ¬⌊x⌋ % 2 = 0 := by omega
    simp only [nearestEven, if_neg odd]
    split
    next near => exact iff_of_true (by omega) (by linarith)
    next far =>
      have middle : ¬x < n - 1 / 2 := fun lt => far (by linarith)
      split <;> exact iff_of_false (by omega) middle
  · have far : (n : Rat) ≤ ⌊x⌋ := by exact_mod_cast (by omega : n ≤ ⌊x⌋)
    refine iff_of_false ?_ (by linarith)
    rcases nearestEven_cases x with same | next <;> omega

section Digits

variable (digits : Nat) (least : Int)

/-- The exponent of the unit. -/
def unitExponent (x : Rat) : Int := max least (Int.log 2 x - (digits - 1))

def nearest (x : Rat) : Rat :=
  nearestEven (x / 2 ^ unitExponent digits least x) * 2 ^ unitExponent digits least x

variable {digits least}

private theorem pow_mul_unit {a : Int} (nonneg : 0 ≤ a) (e : Int) :
    ((2 ^ a.toNat : Int) : Rat) * 2 ^ e = 2 ^ (a + e) := by
  rw [zpow_add₀ two_ne_zero]
  refine congrArg (· * (2 : Rat) ^ e) ?_
  rw [Int.cast_pow, Int.cast_ofNat, ← zpow_natCast, Int.toNat_of_nonneg nonneg]

theorem nearest_nonneg {x : Rat} (nonneg : 0 ≤ x) : 0 ≤ nearest digits least x := by
  have unit : (0 : Rat) < 2 ^ unitExponent digits least x := by positivity
  have rounded : 0 ≤ nearestEven (x / 2 ^ unitExponent digits least x) :=
    le_nearestEven (by rw [Int.cast_zero]; exact div_nonneg nonneg unit.le)
  exact mul_nonneg (by exact_mod_cast rounded) unit.le

/-- A number from a power of two on is not rounded below it, if its unit is not above. -/
theorem pow_le_nearest {j : Int} {x : Rat} (above : 2 ^ j ≤ x)
    (unit : unitExponent digits least x ≤ j) :
    2 ^ j ≤ nearest digits least x := by
  have positive : (0 : Rat) < 2 ^ unitExponent digits least x := by positivity
  have whole := pow_mul_unit (sub_nonneg.mpr unit) (unitExponent digits least x)
  rw [sub_add_cancel] at whole
  rw [← whole] at above ⊢
  have rounded := le_nearestEven ((le_div_iff₀ positive).mpr above)
  exact mul_le_mul_of_nonneg_right (by exact_mod_cast rounded) positive.le

theorem nearest_le_pow {j : Int} {x : Rat} (below : x ≤ 2 ^ j)
    (unit : unitExponent digits least x ≤ j) :
    nearest digits least x ≤ 2 ^ j := by
  have positive : (0 : Rat) < 2 ^ unitExponent digits least x := by positivity
  have whole := pow_mul_unit (sub_nonneg.mpr unit) (unitExponent digits least x)
  rw [sub_add_cancel] at whole
  rw [← whole] at below ⊢
  have rounded := nearestEven_le ((div_le_iff₀ positive).mpr below)
  exact mul_le_mul_of_nonneg_right (by exact_mod_cast rounded) positive.le

/-- A power of two is a number of its own. -/
theorem nearest_pow {j : Int} (some_digit : 0 < digits) (range : least ≤ j) :
    nearest digits least (2 ^ j) = 2 ^ j := by
  have exponent : Int.log 2 ((2 : Rat) ^ j) = j := Int.log_zpow Nat.one_lt_two j
  have unit : unitExponent digits least (2 ^ j) ≤ j := by
    rw [unitExponent, exponent]
    omega
  exact le_antisymm (nearest_le_pow le_rfl unit) (pow_le_nearest le_rfl unit)

theorem nearest_zero : nearest digits least 0 = 0 := by
  have rounded : nearestEven 0 = 0 :=
    le_antisymm (nearestEven_le Int.cast_zero.ge) (le_nearestEven Int.cast_zero.le)
  rw [nearest, zero_div, rounded, Int.cast_zero, zero_mul]

/-- A number is rounded below a power of two up to the middle between that and the number before. -/
theorem nearest_lt_pow_iff {k : Int} {x : Rat} (some_digit : 0 < digits)
    (range : least + digits ≤ k) (nonneg : 0 ≤ x) :
    nearest digits least x < 2 ^ k ↔ x < 2 ^ k - 2 ^ (k - digits - 1) := by
  rcases nonneg.eq_or_lt with rfl | positive
  · have less : (2 : Rat) ^ (k - digits - 1) < 2 ^ k := zpow_lt_zpow_right₀ one_lt_two (by omega)
    rw [nearest_zero]
    exact iff_of_true (by positivity) (sub_pos.mpr less)
  have above := Int.zpow_log_le_self one_lt_two positive
  have below := Int.lt_zpow_succ_log_self one_lt_two x
  rw [Nat.cast_ofNat] at above below
  have half : (0 : Rat) < 2 ^ (k - digits - 1) := by positivity
  have unit : unitExponent digits least x = max least (Int.log 2 x - (digits - 1)) := rfl
  rcases lt_trichotomy (Int.log 2 x) (k - 1) with small | last | large
  · -- the number is below the power of two before
    have lower : x < 2 ^ (k - 1) :=
      below.trans_le (zpow_le_zpow_right₀ one_le_two (by omega))
    have rounded : nearest digits least x ≤ 2 ^ (k - 1) := nearest_le_pow lower.le (by omega)
    have double : (2 : Rat) ^ k = 2 ^ (k - 1) * 2 := by
      rw [← zpow_add_one₀ two_ne_zero, sub_add_cancel]
    have power : (0 : Rat) < 2 ^ (k - 1) := by positivity
    have less : (2 : Rat) ^ (k - digits - 1) ≤ 2 ^ (k - 1) :=
      zpow_le_zpow_right₀ one_le_two (by omega)
    exact iff_of_true (by linarith) (by linarith)
  · -- the unit is as many digits below the power of two
    have exponent : unitExponent digits least x = k - digits := by omega
    have power : (0 : Rat) < 2 ^ (k - digits) := by positivity
    have whole := pow_mul_unit (Int.natCast_nonneg digits) (k - digits)
    rw [Int.toNat_natCast, add_sub_cancel] at whole
    have even : (2 ^ digits : Int) % 2 = 0 :=
      Int.emod_eq_zero_of_dvd (dvd_pow_self 2 some_digit.ne')
    rw [nearest, exponent, zpow_sub_one₀ two_ne_zero, ← whole,
      mul_lt_mul_iff_left₀ power, Int.cast_lt,
      nearestEven_lt_iff even, div_lt_iff₀ power, sub_mul, one_div, mul_comm (2 : Rat)⁻¹]
  · have upper : (2 : Rat) ^ k ≤ x := (zpow_le_zpow_right₀ one_le_two (by omega)).trans above
    have rounded : 2 ^ Int.log 2 x ≤ nearest digits least x := pow_le_nearest above (by omega)
    have power : (2 : Rat) ^ k ≤ 2 ^ Int.log 2 x := zpow_le_zpow_right₀ one_le_two (by omega)
    exact iff_of_false (by linarith) (by linarith)

end Digits

end Rounding
