import Mathlib.Algebra.Order.Field.Rat
import Mathlib.Data.Rat.Floor
import Trading.Data.Rounding
import Trading.Domain

/-!
# The default decimal context

An operation on decimals rounds its exact result to 28 digits, and raises where the result
is too large. Traps that are off by default would raise where something else is lost.
-/
namespace Trading

open Data

/-- Exponents go down to that of the last digit of a subnormal number. -/
def decimalFormat : Format where
  base := 10
  digits := 28
  least := -1000026
  one_lt := by decide
  digits_pos := by decide

/-- What an operation makes of its exact result. -/
def Decimal.context (x : Decimal) : Except PyError Decimal :=
  let rounded := decimalFormat.round x
  if 999999 < Int.log 10 |rounded| then .error ⟨"Overflow", "[<class 'decimal.Overflow'>]"⟩
  else .ok rounded

/-- With a trap for `Inexact`. -/
def Decimal.exactly (x : Decimal) : Except PyError Decimal :=
  if decimalFormat.round x = x then Decimal.context x
  else .error ⟨"Inexact", "[<class 'decimal.Inexact'>]"⟩

/-- With a trap for `Subnormal`. -/
def Decimal.normally (x : Decimal) : Except PyError Decimal :=
  if decimalFormat.Normal x then Decimal.context x
  else .error ⟨"Subnormal", "[<class 'decimal.Subnormal'>]"⟩

example : Decimal.context (2 / 3) = .ok (6666666666666666666666666667 / 10 ^ 28) := by
  decide +kernel

theorem context_eq_ok {x y : Decimal} (h : Decimal.context x = .ok y) :
    y = decimalFormat.round x := by
  rw [Decimal.context] at h
  split at h
  · cases h
  · exact (Except.ok.inj h).symm

/-- `rnd` is the context with more traps, and what it lets through is off by a proportion of
`u` at most. -/
structure RoundsWithin (u : Decimal) (rnd : Decimal → Except PyError Decimal) : Prop where
  context : ∀ x y, rnd x = .ok y → Decimal.context x = .ok y
  near : ∀ x y, rnd x = .ok y → |y - x| ≤ u * |x|

namespace RoundsWithin

variable {u x y : Decimal} {rnd : Decimal → Except PyError Decimal} (h : RoundsWithin u rnd)
  (hx : 0 ≤ x) (hy : rnd x = .ok y)

include h hx hy

theorem le : y ≤ (1 + u) * x := by
  have hnear := abs_le.mp (h.near x y hy)
  rw [abs_of_nonneg hx] at hnear
  linarith

theorem ge : (1 - u) * x ≤ y := by
  have hnear := abs_le.mp (h.near x y hy)
  rw [abs_of_nonneg hx] at hnear
  linarith

end RoundsWithin

theorem roundsWithin_exactly : RoundsWithin 0 Decimal.exactly where
  context x y h := by
    rw [Decimal.exactly] at h
    split at h
    · exact h
    · cases h
  near x y h := by
    rw [Decimal.exactly] at h
    split at h
    · next hexact => simp [context_eq_ok h, hexact]
    · cases h

theorem roundsWithin_normally : RoundsWithin decimalFormat.unit Decimal.normally where
  context x y h := by
    rw [Decimal.normally] at h
    split at h
    · exact h
    · cases h
  near x y h := by
    rw [Decimal.normally] at h
    split at h
    · next hnormal =>
      rw [context_eq_ok h]
      exact decimalFormat.abs_round_sub_le_of_normal hnormal
    · cases h

end Trading
