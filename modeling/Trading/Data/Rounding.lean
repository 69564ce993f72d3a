import Mathlib.Algebra.Order.Floor.Ring
import Mathlib.Algebra.Order.Group.Unbundled.Int
import Mathlib.Data.Int.Log
import Mathlib.Tactic.FieldSimp
import Mathlib.Tactic.Linarith
import Mathlib.Tactic.Ring

/-!
# Rounding to a number of digits

A number is rounded to a multiple of its quantum, the unit of its last digit: to the nearest
one, and of two that are equally near to the even one.
-/
namespace Data

variable {K : Type} [Field K] [LinearOrder K] [IsStrictOrderedRing K] [FloorRing K]

def roundHalfEven (x : K) : ℤ :=
  if Int.fract x < 1 / 2 then ⌊x⌋
  else if 1 / 2 < Int.fract x then ⌊x⌋ + 1
  else if Even ⌊x⌋ then ⌊x⌋ else ⌊x⌋ + 1

@[simp] theorem roundHalfEven_intCast (n : ℤ) : roundHalfEven (n : K) = n := by
  simp [roundHalfEven]

/-- A half is the most that it is off. -/
theorem abs_roundHalfEven_sub_le (x : K) : |(roundHalfEven x : K) - x| ≤ 1 / 2 := by
  have hx : (⌊x⌋ : K) + Int.fract x = x := Int.floor_add_fract x
  have hlow := Int.fract_nonneg x
  rw [roundHalfEven, abs_le]
  split
  · constructor
    all_goals linarith
  · split
    · push_cast
      have hhigh := Int.fract_lt_one x
      constructor
      all_goals linarith
    · split
      · constructor
        all_goals linarith
      · push_cast
        constructor
        all_goals linarith

/-- What a number can be written with: so many digits of a base, the last of them no less
than the least exponent. -/
structure Format where
  base : ℕ
  digits : ℕ
  least : ℤ
  one_lt : 1 < base
  digits_pos : 0 < digits

namespace Format

variable (F : Format) {x : K}

/-- The exponent of the last digit. -/
def quantum (x : K) : ℤ := max (Int.log F.base |x| + 1 - F.digits) F.least

def round (x : K) : K :=
  roundHalfEven (x / (F.base : K) ^ F.quantum x) * (F.base : K) ^ F.quantum x

/-- There is room for all the digits. -/
def Normal (x : K) : Prop := F.least ≤ Int.log F.base |x| + 1 - F.digits

instance (x : K) : Decidable (F.Normal x) := inferInstanceAs (Decidable (_ ≤ _))

/-- Half a unit in the last of all the digits, in proportion. -/
def unit : K := (F.base : K) ^ (1 - F.digits : ℤ) / 2

omit [FloorRing K] in
theorem base_pos : 0 < (F.base : K) := Nat.cast_pos.mpr (Nat.zero_lt_of_lt F.one_lt)

theorem one_le_base : (1 : K) ≤ F.base := Nat.one_le_cast.mpr (Nat.le_of_lt F.one_lt)

theorem unit_nonneg : 0 ≤ (F.unit : K) :=
  div_nonneg (zpow_nonneg F.base_pos.le _) (by norm_num)

theorem unit_lt_one : (F.unit : K) < 1 := by
  have hexponent : (1 - F.digits : ℤ) ≤ 0 := by have := F.digits_pos; omega
  have hpow : (F.base : K) ^ (1 - F.digits : ℤ) ≤ 1 := zpow_le_one_of_nonpos₀ F.one_le_base hexponent
  rw [unit]
  linarith

@[simp] theorem round_zero : F.round (0 : K) = 0 := by
  have hzero : roundHalfEven (0 : K) = 0 := by simpa using roundHalfEven_intCast (K := K) 0
  rw [round, zero_div, hzero, Int.cast_zero, zero_mul]

/-- Rounding is off by half a quantum at most. -/
theorem abs_round_sub_le (x : K) : |F.round x - x| ≤ (F.base : K) ^ F.quantum x / 2 := by
  have hpos : 0 < (F.base : K) ^ F.quantum x := zpow_pos F.base_pos _
  have hx : x = x / (F.base : K) ^ F.quantum x * (F.base : K) ^ F.quantum x :=
    (div_mul_cancel₀ x hpos.ne').symm
  have hoff : F.round x - x = (roundHalfEven (x / (F.base : K) ^ F.quantum x) -
      x / (F.base : K) ^ F.quantum x) * (F.base : K) ^ F.quantum x := by
    rw [sub_mul, ← hx, round]
  rw [hoff, abs_mul, abs_of_pos hpos]
  calc _ ≤ 1 / 2 * (F.base : K) ^ F.quantum x :=
        mul_le_mul_of_nonneg_right (abs_roundHalfEven_sub_le _) hpos.le
    _ = (F.base : K) ^ F.quantum x / 2 := by ring

/-- Where there is room for all the digits, the error is small in proportion. -/
theorem abs_round_sub_le_of_normal (h : F.Normal x) : |F.round x - x| ≤ F.unit * |x| := by
  by_cases hzero : x = 0
  · simp [hzero]
  have hpos : 0 < |x| := abs_pos.mpr hzero
  have hquantum : F.quantum x = Int.log F.base |x| + (1 - F.digits) := by
    rw [quantum, max_eq_left h]
    ring
  calc |F.round x - x| ≤ (F.base : K) ^ F.quantum x / 2 := F.abs_round_sub_le x
    _ = F.unit * (F.base : K) ^ Int.log F.base |x| := by
        rw [hquantum, zpow_add₀ F.base_pos.ne', unit]
        ring
    _ ≤ F.unit * |x| :=
        mul_le_mul_of_nonneg_left (Int.zpow_log_le_self F.one_lt hpos) F.unit_nonneg

end Format

end Data
