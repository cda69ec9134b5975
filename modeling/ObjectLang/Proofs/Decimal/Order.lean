import Mathlib.Algebra.Order.Field.Rat
import Mathlib.Order.Compare
import Mathlib.Tactic.Ring
import ObjectLang.Proofs.Decimal.Division

/-!
# The order of decimals is that of the numbers

Comparing two decimals compares the numbers that they stand for, and their difference stands for
the difference of the numbers, whatever the two scales are and also if a zero hands the other
operand through. So the sign of a difference tells how its operands compare.
-/

namespace ObjectLang.Decimal

/-- A decimal holds its number in units of every finer scale. -/
theorem number_eq_unitsAt (d : Decimal) {s : ℤ} (h : d.scale ≤ s) :
    d.number = d.unitsAt s * 10 ^ (-s) := by
  have hten : (10 : ℚ) ≠ 0 := by norm_num
  have hexponent : ((s - d.scale).toNat : ℤ) + -s = -d.scale := by omega
  rw [number, unitsAt, Int.cast_mul, cast_tenPow, mul_assoc, ← zpow_add₀ hten, hexponent]

/-- A difference of decimals stands for the difference of the numbers. -/
theorem number_sub (a b : Decimal) : (a.sub b).number = a.number - b.number := by
  unfold sub
  split_ifs with hb ha
  · rw [number_eq_zero_iff.mpr hb, sub_zero]
  · rw [number_eq_zero_iff.mpr ha, zero_sub, number, number, Int.cast_neg, neg_mul]
  · rw [a.number_eq_unitsAt (le_max_left a.scale b.scale),
      b.number_eq_unitsAt (le_max_right a.scale b.scale), number]
    push_cast
    ring

/-- Numbers of units compare as the numbers that they make up. -/
theorem compare_mul_right {u : ℚ} (hu : 0 < u) (x y : ℤ) :
    compare (x * u : ℚ) (y * u) = compare x y := by
  rcases lt_trichotomy x y with h | rfl | h
  · rw [compare_lt_iff_lt.mpr h, compare_lt_iff_lt]
    exact mul_lt_mul_of_pos_right (Int.cast_lt.mpr h) hu
  · rw [compare_eq_iff_eq.mpr rfl, compare_eq_iff_eq.mpr rfl]
  · rw [compare_gt_iff_gt.mpr h, compare_gt_iff_gt]
    exact mul_lt_mul_of_pos_right (Int.cast_lt.mpr h) hu

/-- Decimals compare as the numbers that they stand for. -/
theorem compare_eq_compare_number (a b : Decimal) : a.compare b = compare a.number b.number := by
  have hshifted {x y : Decimal} (h : x.scale ≤ y.scale) :
      compareShifted x.unscaled (y.scale - x.scale).toNat y.unscaled =
        compare x.number y.number := by
    have hunit : (0 : ℚ) < 10 ^ (-y.scale) := zpow_pos (by norm_num) _
    rw [compareShifted_eq, x.number_eq_unitsAt h, number, compare_mul_right hunit, unitsAt]
  unfold Decimal.compare
  split_ifs with h
  · exact hshifted h
  · rw [hshifted (Int.le_of_lt (Int.not_le.mp h))]
    exact Std.OrientedOrd.eq_swap.symm

instance : Std.TransCmp Decimal.compare where
  eq_swap {a b} := by
    rw [compare_eq_compare_number, compare_eq_compare_number]
    exact Std.OrientedOrd.eq_swap
  isLE_trans {a b c} := by
    rw [compare_eq_compare_number, compare_eq_compare_number, compare_eq_compare_number]
    exact Std.TransOrd.isLE_trans

end ObjectLang.Decimal
