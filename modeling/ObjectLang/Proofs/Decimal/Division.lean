import Mathlib.Algebra.Order.Field.Basic
import Mathlib.Algebra.Order.Field.Rat
import Mathlib.Algebra.Ring.Int.Parity
import Mathlib.Tactic.FieldSimp
import Mathlib.Tactic.Linarith
import Mathlib.Tactic.Ring
import ObjectLang.Decimal.Division

/-!
# Division rounds correctly

A quotient of decimals is kept at the scale of the dividend, so it is a whole number of units of
that scale. Rounding is correct if no other whole number of units is nearer to the exact quotient,
and of two that are equally near the even one is taken. There is exactly one such number, and it is
the one that `Decimal.divide` computes, whatever the signs and the scales are.

The proof goes through whole numbers. In units of the result the exact quotient is a fraction `n / d`
(`Decimal.number_div`), and rounding a fraction is a matter of `2 * |n - q * d|` and `|d|` only.
-/

namespace ObjectLang

/-! ## Fractions -/

/-- The whole number nearest to the fraction `n / d`; halfway between two, the even one. -/
def RoundsHalfEven (n d q : ℤ) : Prop :=
  2 * |n - q * d| ≤ |d| ∧ (2 * |n - q * d| = |d| → Even q)

namespace RoundsHalfEven

variable {n d q q' : ℤ}

/-- Two different numbers that are at most half a unit away from the fraction are exactly half a
unit away, and differ by one. So they are not both even. -/
theorem unique (hd : d ≠ 0) (h : RoundsHalfEven n d q) (h' : RoundsHalfEven n d q') : q = q' := by
  have hpos : 0 < |d| := abs_pos.mpr hd
  have hgap : |q - q'| * |d| ≤ |n - q' * d| + |n - q * d| := by
    have hsplit : (q - q') * d = (n - q' * d) - (n - q * d) := by ring
    rw [← abs_mul, hsplit]
    exact abs_sub _ _
  obtain ⟨hle, heven⟩ := h
  obtain ⟨hle', heven'⟩ := h'
  by_contra hne
  have hone : 1 ≤ |q - q'| := Int.one_le_abs (sub_ne_zero.mpr hne)
  have hunit : 1 * |d| ≤ |q - q'| * |d| := mul_le_mul_of_nonneg_right hone hpos.le
  obtain ⟨k, hk⟩ : Even (q - q') := (heven (by omega)).sub (heven' (by omega))
  have htwo : 2 ≤ |q - q'| := by
    rcases abs_cases (q - q') with ⟨habs, -⟩ | ⟨habs, -⟩ <;> omega
  have hunits : 2 * |d| ≤ |q - q'| * |d| := mul_le_mul_of_nonneg_right htwo hpos.le
  omega

end RoundsHalfEven

/-! ## The truncated quotient and its remainder -/

section

variable {n d : ℤ}

theorem sub_tdiv_mul (n d : ℤ) : n - n.tdiv d * d = n.tmod d := by
  have hdivide : d * n.tdiv d + n.tmod d = n := Int.mul_tdiv_add_tmod n d
  linarith [mul_comm d (n.tdiv d)]

theorem abs_tmod_lt (hd : d ≠ 0) : |n.tmod d| < |d| := by
  rw [Int.abs_eq_natAbs, Int.abs_eq_natAbs, Int.natAbs_tmod]
  exact_mod_cast Nat.mod_lt _ (Int.natAbs_pos.mpr hd)

/-- A remainder has the sign of the dividend. -/
theorem tmod_neg_iff (hr : n.tmod d ≠ 0) : n.tmod d < 0 ↔ n < 0 := by
  constructor
  · intro hneg
    by_contra hn
    exact absurd (Int.tmod_nonneg d (not_lt.mp hn)) (not_le.mpr hneg)
  · intro hn
    have hflip : 0 ≤ (-n).tmod d := Int.tmod_nonneg d (by omega)
    rw [Int.neg_tmod] at hflip
    omega

/-- One step away from zero, in the direction of the exact quotient, what is left is the rest of
the divisor: dividend and remainder have one sign, so adding or subtracting the divisor brings the
remainder back over zero. -/
theorem abs_sub_away (hd : d ≠ 0) (hr : n.tmod d ≠ 0) :
    |n - (if decide (n < 0) != decide (d < 0) then n.tdiv d - 1 else n.tdiv d + 1) * d| =
      |d| - |n.tmod d| := by
  have hsign := tmod_neg_iff hr
  have hlt := abs_tmod_lt (n := n) hd
  split_ifs with hopposite
  · have hrest : n - (n.tdiv d - 1) * d = n.tmod d + d := by
      rw [sub_mul, one_mul, ← sub_tdiv_mul n d]; ring
    have hsigns : ¬(n < 0 ↔ d < 0) := by simpa using hopposite
    rw [hrest]
    rcases lt_or_ge d 0 with hneg | hpos
    · rw [abs_of_neg hneg, abs_of_nonneg (a := n.tmod d) (by omega)] at hlt ⊢
      rw [abs_of_neg (by omega)]
      omega
    · rw [abs_of_nonneg hpos, abs_of_neg (a := n.tmod d) (by omega)] at hlt ⊢
      rw [abs_of_pos (by omega)]
      omega
  · have hrest : n - (n.tdiv d + 1) * d = n.tmod d - d := by
      rw [add_mul, one_mul, ← sub_tdiv_mul n d]; ring
    have hsigns : n < 0 ↔ d < 0 := by simpa using hopposite
    rw [hrest]
    rcases lt_or_ge d 0 with hneg | hpos
    · rw [abs_of_neg hneg, abs_of_neg (a := n.tmod d) (by omega)] at hlt ⊢
      rw [abs_of_pos (by omega)]
      omega
    · rw [abs_of_nonneg hpos, abs_of_nonneg (a := n.tmod d) (by omega)] at hlt ⊢
      rw [abs_of_neg (by omega)]
      omega

end

theorem roundsAway_eq_true {q r d : ℤ} (h : roundsAway q r d = true) :
    |d| ≤ 2 * |r| ∧ (2 * |r| = |d| → ¬Even q) := by
  rw [Int.abs_eq_natAbs, Int.abs_eq_natAbs]
  unfold roundsAway at h
  split at h
  case h_1 hgt =>
    have := Nat.compare_eq_gt.mp hgt
    exact ⟨by omega, fun heq => absurd heq (by omega)⟩
  case h_2 => simp at h
  case h_3 heq =>
    have := Nat.compare_eq_eq.mp heq
    refine ⟨by omega, fun _ heven => ?_⟩
    rw [bne_iff_ne, ne_eq, ← Int.dvd_iff_tmod_eq_zero, ← even_iff_two_dvd] at h
    exact h heven

theorem roundsAway_eq_false {q r d : ℤ} (h : roundsAway q r d = false) :
    2 * |r| ≤ |d| ∧ (2 * |r| = |d| → Even q) := by
  rw [Int.abs_eq_natAbs, Int.abs_eq_natAbs]
  unfold roundsAway at h
  split at h
  case h_1 => simp at h
  case h_2 hlt =>
    have := Nat.compare_eq_lt.mp hlt
    exact ⟨by omega, fun heq => absurd heq (by omega)⟩
  case h_3 heq =>
    have := Nat.compare_eq_eq.mp heq
    refine ⟨by omega, fun _ => ?_⟩
    rw [bne_eq_false_iff_eq, ← Int.dvd_iff_tmod_eq_zero, ← even_iff_two_dvd] at h
    exact h

/-- The truncated quotient or its neighbour away from zero, as the remainder decides. -/
theorem divHalfEven_rounds {d : ℤ} (hd : d ≠ 0) (n : ℤ) :
    RoundsHalfEven n d (divHalfEven n d) := by
  have hpos : 0 < |d| := abs_pos.mpr hd
  unfold divHalfEven
  dsimp only
  by_cases hr : n.tmod d = 0
  · rw [if_pos hr, RoundsHalfEven, sub_tdiv_mul, hr, abs_zero]
    exact ⟨by omega, fun heq => absurd heq (by omega)⟩
  rw [if_neg hr]
  cases haway : roundsAway (n.tdiv d) (n.tmod d) d with
  | false =>
    rw [Bool.not_false, if_pos rfl, RoundsHalfEven, sub_tdiv_mul]
    exact roundsAway_eq_false haway
  | true =>
    obtain ⟨hhalf, hodd⟩ := roundsAway_eq_true haway
    rw [Bool.not_true, if_neg (by decide), RoundsHalfEven, abs_sub_away hd hr]
    refine ⟨by omega, fun heq => ?_⟩
    have hneighbour : ¬Even (n.tdiv d) := hodd (by omega)
    split_ifs with hopposite
    · exact (Int.not_even_iff_odd.mp hneighbour).sub_odd odd_one
    · exact (Int.not_even_iff_odd.mp hneighbour).add_odd odd_one

/-- Exactly one whole number is nearest to a fraction. -/
theorem roundsHalfEven_iff {n d q : ℤ} (hd : d ≠ 0) :
    RoundsHalfEven n d q ↔ q = divHalfEven n d := by
  constructor
  · exact fun h => h.unique hd (divHalfEven_rounds hd n)
  · rintro rfl
    exact divHalfEven_rounds hd n

/-! ## Decimals -/

namespace Decimal

/-- The number that a decimal stands for. -/
def number (d : Decimal) : ℚ := d.unscaled * 10 ^ (-d.scale)

/-- `q` units of `10 ^ (-s)` are at most half a unit away from `x`, and exactly half a unit only if
`q` is even. -/
def NearestUnits (x : ℚ) (s q : ℤ) : Prop :=
  2 * |x - q * 10 ^ (-s)| ≤ 10 ^ (-s) ∧ (2 * |x - q * 10 ^ (-s)| = 10 ^ (-s) → Even q)

theorem number_eq_zero_iff {d : Decimal} : d.number = 0 ↔ d.isZero = true := by
  have hunit : (10 : ℚ) ^ (-d.scale) ≠ 0 := zpow_ne_zero _ (by norm_num)
  rw [number, mul_eq_zero, or_iff_left hunit, Int.cast_eq_zero, isZero, beq_iff_eq]

theorem cast_tenPow (k : ℕ) : (tenPow k : ℚ) = 10 ^ (k : ℤ) := by
  rw [tenPow, zpow_natCast]
  push_cast
  rfl

/-- Powers of ten above and below make up every power of ten. -/
theorem tenPow_div_tenPow (k : ℤ) : (tenPow k.toNat : ℚ) / tenPow (-k).toNat = 10 ^ k := by
  have hten : (10 : ℚ) ≠ 0 := by norm_num
  rw [cast_tenPow, cast_tenPow, ← zpow_sub₀ hten]
  congr 1
  omega

/-- A scale of the divisor goes into the dividend, or the power below one into the divisor; the
other power is `1`. -/
theorem divide_eq (a b : Decimal) :
    a.divide b =
      ⟨divHalfEven (a.unscaled * tenPow b.scale.toNat) (b.unscaled * tenPow (-b.scale).toNat),
        a.scale⟩ := by
  have hone : tenPow 0 = 1 := rfl
  unfold divide
  split_ifs with hscale
  · rw [show (-b.scale).toNat = 0 by omega, show b.scale.toNat = b.scale.natAbs by omega, hone,
      mul_one]
  · rw [show b.scale.toNat = 0 by omega, show (-b.scale).toNat = b.scale.natAbs by omega, hone,
      mul_one]

/-- In units of the result the exact quotient is a fraction of whole numbers. -/
theorem number_div (a b : Decimal) :
    a.number / b.number =
      ((a.unscaled * tenPow b.scale.toNat : ℤ) : ℚ) / (b.unscaled * tenPow (-b.scale).toNat : ℤ) *
        10 ^ (-a.scale) := by
  calc a.number / b.number
    _ = a.unscaled / b.unscaled * (10 ^ (-a.scale) / 10 ^ (-b.scale)) :=
      mul_div_mul_comm _ _ _ _
    _ = a.unscaled / b.unscaled * 10 ^ b.scale * 10 ^ (-a.scale) := by
      rw [zpow_neg _ b.scale, div_inv_eq_mul]
      ring
    _ = a.unscaled / b.unscaled * (tenPow b.scale.toNat / tenPow (-b.scale).toNat) *
          10 ^ (-a.scale) := by
      rw [tenPow_div_tenPow]
    _ = _ := by
      rw [← mul_div_mul_comm, Int.cast_mul, Int.cast_mul]

/-- Rounding to units of `10 ^ (-s)` is rounding a fraction of such units. -/
theorem nearestUnits_iff {n d : ℤ} (hd : d ≠ 0) (s q : ℤ) :
    NearestUnits ((n : ℚ) / d * 10 ^ (-s)) s q ↔ RoundsHalfEven n d q := by
  have hunit : (0 : ℚ) < 10 ^ (-s) := zpow_pos (by norm_num) _
  have hd' : (d : ℚ) ≠ 0 := Int.cast_ne_zero.mpr hd
  have hpos : (0 : ℚ) < |(d : ℚ)| := abs_pos.mpr hd'
  have hdist : 2 * |(n : ℚ) / d * 10 ^ (-s) - q * 10 ^ (-s)| =
      ((2 * |n - q * d| : ℤ) : ℚ) / |(d : ℚ)| * 10 ^ (-s) := by
    have hsub : (n : ℚ) / d * 10 ^ (-s) - q * 10 ^ (-s) =
        ((n - q * d : ℤ) : ℚ) / d * 10 ^ (-s) := by
      push_cast
      field_simp
    rw [hsub, abs_mul, abs_div, abs_of_pos hunit]
    push_cast
    ring
  rw [NearestUnits, RoundsHalfEven, hdist, mul_le_iff_le_one_left hunit, div_le_one hpos,
    mul_eq_right₀ hunit.ne', div_eq_one_iff_eq hpos.ne', ← Int.cast_abs, Int.cast_le, Int.cast_inj]

/-- The quotient of decimals has the scale of the dividend, and of all whole numbers of its units it
is the one nearest to the exact quotient; halfway between two, the even one. -/
theorem divide_rounds (a b : Decimal) (hb : b.number ≠ 0) :
    (a.divide b).scale = a.scale ∧
      ∀ q, NearestUnits (a.number / b.number) a.scale q ↔ q = (a.divide b).unscaled := by
  have hd : b.unscaled * tenPow (-b.scale).toNat ≠ 0 := by
    rw [ne_eq, number_eq_zero_iff, isZero, beq_iff_eq] at hb
    exact mul_ne_zero hb (tenPow_pos _).ne'
  refine ⟨by rw [divide_eq], fun q => ?_⟩
  rw [number_div, nearestUnits_iff hd, roundsHalfEven_iff hd, divide_eq]

/-- A quotient of `0.015` lies halfway between one unit and two. -/
theorem divide_rounds_tie :
    (⟨-1, -1⟩ : Decimal).number ≠ 0 ∧ (divide ⟨-15, 2⟩ ⟨-1, -1⟩).unscaled = 2 ∧
      ∀ q, NearestUnits (number ⟨-15, 2⟩ / number ⟨-1, -1⟩) 2 q ↔ q = 2 := by
  have hb : (⟨-1, -1⟩ : Decimal).number ≠ 0 := number_eq_zero_iff.not.mpr (by decide)
  have hquotient : (divide ⟨-15, 2⟩ ⟨-1, -1⟩).unscaled = 2 := by decide
  have hunits := (divide_rounds ⟨-15, 2⟩ ⟨-1, -1⟩ hb).2
  rw [hquotient] at hunits
  exact ⟨hb, hquotient, hunits⟩

end Decimal

end ObjectLang
