/-!
# Decimal numbers

A decimal is a whole number of units, each unit being a power of ten: `unscaled · 10 ^ (-scale)`.
The scale is part of the value, so `1.0` and `1.00` are two decimals that stand for one number.
Hence there are two notions of equality: `=` compares both fields, and `Decimal.sameNumber` compares
the numbers that the decimals stand for.

Addition, subtraction and multiplication are exact. Which scale the result carries is fixed by the
rules stated at each operation; in particular a zero or a one may hand the other operand through
unchanged.

A scale is an integer without bounds. Texts are read only if their scale fits in 64 bits, and scales
grow by addition alone, so a 64-bit word holds them unless a program multiplies numbers whose scales
are near the end of the word. What an overflow of the word would make of such a product, or of the
digits in an exponent, is left out.
-/

namespace ObjectLang

/-- Powers are the built-in ones, whatever other powers are in scope. -/
@[default_instance 20000]
instance (priority := 2000) builtinPow {α : Type} [NatPow α] : Pow α Nat := instPowNat

/-- The number `unscaled · 10 ^ (-scale)`, together with the scale it is kept at. -/
structure Decimal where
  /-- How many units there are. -/
  unscaled : Int
  /-- The unit is `10 ^ (-scale)`. -/
  scale : Int
deriving DecidableEq, Repr, Inhabited

/-- The power `10 ^ n`, as an integer. -/
def tenPow (n : Nat) : Int := ((10 ^ n : Nat) : Int)

theorem tenPow_pos (n : Nat) : 0 < tenPow n :=
  Int.natCast_pos.mpr (Nat.pow_pos (by decide))

namespace Decimal

/-- The whole number `n`, at scale zero. -/
def ofInt (n : Int) : Decimal := ⟨n, 0⟩

/-- Whether the number is zero, at whatever scale. -/
def isZero (d : Decimal) : Bool := d.unscaled == 0

/-- How many units of `10 ^ (-s)` the decimal holds. Exact whenever `d.scale ≤ s`. -/
def unitsAt (d : Decimal) (s : Int) : Int := d.unscaled * tenPow (s - d.scale).toNat

/-! ## Arithmetic -/

/-- The sum, at the larger of the two scales. -/
def add (a b : Decimal) : Decimal :=
  let s := max a.scale b.scale
  ⟨a.unitsAt s + b.unitsAt s, s⟩

/-- The difference, at the larger of the two scales. A zero on the right hands the left operand
through; otherwise a zero on the left hands the negated right operand through. -/
def sub (a b : Decimal) : Decimal :=
  if b.isZero then a
  else if a.isZero then ⟨-b.unscaled, b.scale⟩
  else
    let s := max a.scale b.scale
    ⟨a.unitsAt s - b.unitsAt s, s⟩

/-- Whether the decimal is the number one, written with at most 38 places after the point. -/
def isOne (d : Decimal) : Bool :=
  decide (0 ≤ d.scale) && decide (d.scale ≤ 38) && d.unscaled == tenPow d.scale.toNat

/-- The product, at the sum of the two scales. A one on the left hands the right operand through;
otherwise a one on the right hands the left operand through. -/
def mul (a b : Decimal) : Decimal :=
  if a.isOne then b
  else if b.isOne then a
  else ⟨a.unscaled * b.unscaled, a.scale + b.scale⟩

/-! ## Order -/

/-- Compares `x · 10 ^ k` with `y`. Once the shift exceeds the size of `y` the sign of `x`
decides, so the shift is cut there, and numbers of very different scales are compared without
being written out (`compareShifted_eq`). -/
def compareShifted (x : Int) (k : Nat) (y : Int) : Ordering :=
  compare (x * tenPow (min k (y.natAbs.log2 + 1))) y

/-- Orders two decimals as numbers, whatever their scales. -/
protected def compare (a b : Decimal) : Ordering :=
  if a.scale ≤ b.scale then
    compareShifted a.unscaled (b.scale - a.scale).toNat b.unscaled
  else
    (compareShifted b.unscaled (a.scale - b.scale).toNat a.unscaled).swap

/-- Whether two decimals stand for the same number. -/
def sameNumber (a b : Decimal) : Bool := a.compare b == .eq

/-- A power of ten whose exponent passes the bit length of `y` exceeds `y` in size. -/
theorem natAbs_lt_tenPow {y : Int} {k : Nat} (h : y.natAbs.log2 + 1 ≤ k) :
    (y.natAbs : Int) < tenPow k := by
  have h₁ : y.natAbs < 2 ^ (y.natAbs.log2 + 1) := Nat.lt_log2_self
  have h₂ : 2 ^ (y.natAbs.log2 + 1) ≤ 2 ^ k := Nat.pow_le_pow_right (by decide) h
  have h₃ : 2 ^ k ≤ 10 ^ k := Nat.pow_le_pow_left (by decide) k
  simp only [tenPow]
  omega

/-- Shifted past the size of `y`, a positive number is larger than `y`. -/
theorem lt_shift_of_pos {x y : Int} {k : Nat} (hx : 0 < x) (h : y.natAbs.log2 + 1 ≤ k) :
    y < x * tenPow k := by
  have h₁ := natAbs_lt_tenPow h
  have h₂ : 1 * tenPow k ≤ x * tenPow k :=
    Int.mul_le_mul_of_nonneg_right hx (Int.le_of_lt (tenPow_pos k))
  omega

/-- Shifted past the size of `y`, a negative number is smaller than `y`. -/
theorem shift_lt_of_neg {x y : Int} {k : Nat} (hx : x < 0) (h : y.natAbs.log2 + 1 ≤ k) :
    x * tenPow k < y := by
  have h₁ := natAbs_lt_tenPow h
  have h₂ : x * tenPow k ≤ -1 * tenPow k :=
    Int.mul_le_mul_of_nonneg_right (by omega) (Int.le_of_lt (tenPow_pos k))
  omega

/-- Cutting the shift does not change the answer. -/
theorem compareShifted_eq (x : Int) (k : Nat) (y : Int) :
    compareShifted x k y = compare (x * tenPow k) y := by
  unfold compareShifted
  by_cases hk : k ≤ y.natAbs.log2 + 1
  · rw [Nat.min_eq_left hk]
  · have hk' : y.natAbs.log2 + 1 ≤ k := by omega
    rw [Nat.min_eq_right hk']
    rcases Int.lt_trichotomy x 0 with hx | hx | hx
    · have h₁ := shift_lt_of_neg (y := y) hx (Nat.le_refl _)
      have h₂ := shift_lt_of_neg (y := y) hx hk'
      rw [Int.compare_eq_lt.mpr h₁, Int.compare_eq_lt.mpr h₂]
    · simp [hx]
    · have h₁ := lt_shift_of_pos (y := y) hx (Nat.le_refl _)
      have h₂ := lt_shift_of_pos (y := y) hx hk'
      rw [Int.compare_eq_gt.mpr h₁, Int.compare_eq_gt.mpr h₂]

end Decimal

end ObjectLang
