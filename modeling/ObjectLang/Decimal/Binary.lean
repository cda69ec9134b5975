import ObjectLang.Decimal.Basic

/-!
# Binary floating-point numbers, exactly

A number that a text spells with a point or an exponent is kept in double precision: a significand
below `2 ^ 53` times a power of two. Here such a number is the exact pair `Binary`, and rounding
is done on whole numbers, so nothing depends on the machine's arithmetic.

`Binary.ofDigits?` reads a significand and a power of ten in two rounded steps, first the
significand and then one multiplication or division by the nearest double to that power.
`Binary.toDecimal` goes the other way and is exact: every binary fraction has a finite decimal
form.
-/

namespace ObjectLang

/-- The number `mantissa · 2 ^ exponent`, not negative. -/
structure Binary where
  /-- The significand. -/
  mantissa : Nat
  /-- The power of two. -/
  exponent : Int
deriving DecidableEq, Repr, Inhabited

namespace Binary

/-- Zero. -/
def zero : Binary := ⟨0, 0⟩

/-- The largest power of two that is not above `n / d`, as an exponent, for positive `n` and `d`. -/
def floorLog2 (n d : Nat) : Int :=
  let e : Int := (n.log2 : Int) - d.log2
  if d * 2 ^ e.toNat ≤ n * 2 ^ (-e).toNat then e else e - 1

/-- The natural number nearest to `n / d` for a positive `d`; halfway between two, the even one. -/
def roundRatio (n d : Nat) : Nat :=
  let q := n / d
  let r := n % d
  if 2 * r < d then q
  else if d < 2 * r then q + 1
  else if q % 2 = 0 then q else q + 1

/-- The double nearest to `n / d` for a positive `d`, a tie going to the even significand. There is
none when the quotient is too large. -/
def ofRatio? (n d : Nat) : Option Binary :=
  if n = 0 then some zero
  else
    let e := max (-1074) (floorLog2 n d - 52)
    let m := roundRatio (n * 2 ^ (-e).toNat) (d * 2 ^ e.toNat)
    if 971 < e ∨ (e = 971 ∧ 2 ^ 53 ≤ m) then none else some ⟨m, e⟩

/-- The double nearest to the natural number `n`. -/
def ofNat? (n : Nat) : Option Binary := ofRatio? n 1

/-- The product, rounded. -/
def mul? (a b : Binary) : Option Binary :=
  let e := a.exponent + b.exponent
  ofRatio? (a.mantissa * b.mantissa * 2 ^ e.toNat) (2 ^ (-e).toNat)

/-- The quotient by a number that is not zero, rounded. -/
def div? (a b : Binary) : Option Binary :=
  let e := a.exponent - b.exponent
  ofRatio? (a.mantissa * 2 ^ e.toNat) (b.mantissa * 2 ^ (-e).toNat)

/-- The double nearest to `10 ^ k`; there is one for every `k` up to 308. -/
def tenPow? (k : Nat) : Option Binary := ofNat? (10 ^ k)

/-- The number `m · 10 ^ e`, in rounded steps: `m` is rounded, then multiplied or divided by the
double nearest to the power of ten. Powers below `10 ^ -308` are divided out in two steps, and
below `10 ^ -616` nothing is left. There is no such number when it is too large. -/
def ofDigits? (m : Nat) (e : Int) : Option Binary := do
  let f ← ofNat? m
  if f.mantissa = 0 then some zero
  else if 308 < e then none
  else if 0 ≤ e then f.mul? (← tenPow? e.toNat)
  else if -308 ≤ e then f.div? (← tenPow? (-e).toNat)
  else if -616 ≤ e then (← f.div? (← tenPow? 308)).div? (← tenPow? (-e - 308).toNat)
  else some zero

/-- Divides `m` by `2` as long as it is even and `k` is positive. -/
def cancelTwos : Nat → Nat → Nat × Nat
  | m, 0 => (m, 0)
  | m, k + 1 => if m % 2 = 0 then cancelTwos (m / 2) k else (m, k + 1)

/-- Whether the number is positive and below the normal range, where the significand has fewer than
53 bits and the unit is `2 ^ (-1074)`. -/
def isSubnormal (b : Binary) : Bool :=
  b.exponent == -1074 && decide (0 < b.mantissa) && decide (b.mantissa < 2 ^ 52)

/-- The number as a decimal of the smallest scale that holds it and is not negative. A subnormal
number keeps the scale of its unit. -/
def toDecimal (b : Binary) : Decimal :=
  if b.isSubnormal then ⟨(b.mantissa * 5 ^ 1074 : Nat), 1074⟩
  else if 0 ≤ b.exponent then ⟨(b.mantissa * 2 ^ b.exponent.toNat : Nat), 0⟩
  else
    let (m, k) := cancelTwos b.mantissa (-b.exponent).toNat
    ⟨(m * 5 ^ k : Nat), k⟩

end Binary

end ObjectLang
