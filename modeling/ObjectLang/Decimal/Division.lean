import ObjectLang.Decimal.Basic

/-!
# Decimal division

A quotient of decimals rarely has finitely many places, so it is rounded: the result keeps the scale
of the dividend, and its unscaled part is the integer nearest to the exact quotient, a tie going to
the even neighbour.

Whole numbers are divided toward zero, with a remainder that has the sign of the dividend. The size
of the remainder tells whether the truncated quotient is kept or moved away from zero, and the
signs of dividend and divisor tell which way that is.
-/

namespace ObjectLang

/-- Whether a quotient `q` that was truncated, with the remainder `r` of a division by `d`, moves
away from zero: more than half a divisor is left, or exactly half of one and `q` is odd. -/
def roundsAway (q r d : Int) : Bool :=
  match compare (2 * r.natAbs) d.natAbs with
  | .gt => true
  | .lt => false
  | .eq => q.tmod 2 != 0

/-- The integer nearest to `n / d`; halfway between two integers, the even one. -/
def divHalfEven (n d : Int) : Int :=
  let q := n.tdiv d
  let r := n.tmod d
  if r = 0 then q
  else if !roundsAway q r d then q
  else if decide (n < 0) != decide (d < 0) then q - 1
  else q + 1

/-- The quotient of two decimals, rounded half to even at the scale of the dividend. At that scale
the exact quotient has `a.unscaled · 10 ^ b.scale / b.unscaled` units. -/
def Decimal.divide (a b : Decimal) : Decimal :=
  let (n, d) :=
    if 0 ≤ b.scale then (a.unscaled * tenPow b.scale.natAbs, b.unscaled)
    else (a.unscaled, b.unscaled * tenPow b.scale.natAbs)
  ⟨divHalfEven n d, a.scale⟩

end ObjectLang
