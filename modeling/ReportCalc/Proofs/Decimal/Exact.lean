import Mathlib.Algebra.Order.Ring.Rat
import Mathlib.Order.Compare
import Mathlib.Tactic.FieldSimp
import ReportCalc.Decimal.Basic

/-!
# The exact value of a decimal

A decimal stands for a rational number (`Decimal.toRat`), and decimals are ordered as the rational
numbers that they stand for (`Decimal.compare_eq_compare_toRat`). Scales do not matter to it.
-/

namespace ReportCalc.Decimal

/-- The number that a decimal stands for. -/
def toRat (d : Decimal) : ℚ := d.coefficient / 10 ^ d.scale

theorem toRat_ofInt64 (i : Int64) : (ofInt64 i).toRat = i.toInt := by
  rw [toRat, coefficient_ofInt64, scale_ofInt64, pow_zero, div_one]

/-- A decimal keeps its number when it is written with more places. -/
theorem rescaled_eq_toRat_mul {d : Decimal} {places : Nat} (h : d.scale ≤ places) :
    (d.rescaled places : ℚ) = d.toRat * 10 ^ places := by
  obtain ⟨more, rfl⟩ := Nat.exists_eq_add_of_le h
  have hmore : d.scale + more - d.scale = more := Nat.add_sub_cancel_left ..
  have htens : (tenPow more : ℚ) = 10 ^ more := by
    rw [tenPow]
    exact_mod_cast rfl
  rw [rescaled, hmore, toRat, pow_add]
  push_cast
  rw [htens]
  field_simp

/-- Decimals are ordered as their exact values. -/
theorem compare_eq_compare_toRat (a b : Decimal) :
    a.compare b = Ord.compare a.toRat b.toRat := by
  let places := max a.scale b.scale
  have hplaces : StrictMono fun q : ℚ => q * 10 ^ places := by
    intro p q hpq
    exact mul_lt_mul_of_pos_right hpq (pow_pos (by norm_num) places)
  calc a.compare b
      = cmp (a.rescaled places) (b.rescaled places) := (cmp_eq_compare ..).symm
    _ = cmp (a.rescaled places : ℚ) (b.rescaled places : ℚ) :=
      (Int.cast_strictMono.cmp_map_eq _ _).symm
    _ = cmp (a.toRat * 10 ^ places) (b.toRat * 10 ^ places) := by
      rw [rescaled_eq_toRat_mul (le_max_left ..), rescaled_eq_toRat_mul (le_max_right ..)]
    _ = cmp a.toRat b.toRat := hplaces.cmp_map_eq _ _
    _ = Ord.compare a.toRat b.toRat := cmp_eq_compare ..

end ReportCalc.Decimal
