import ObjectLang.Decimal.Basic

/-!
# Written forms of a decimal

A decimal is written in one of two ways. `Decimal.text` is what a running program prints: plain
notation where the scale is not negative and the number is not smaller than `10 ^ -6`, scientific
notation elsewhere. `Decimal.interchangeText` is what a tree in interchange form holds: it prefers
plain notation and switches to an exponent only for very long runs of zeros. The printed form
keeps the scale of every decimal, the interchange form forgets that of zero.
-/

namespace ObjectLang

/-- The decimal digits of a natural number, without leading zeros. -/
def digits (n : Nat) : List Char := Nat.toDigits 10 n

/-- An integer with an explicit sign. -/
def signedDigits (n : Int) : List Char :=
  (if n < 0 then '-' else '+') :: digits n.natAbs

namespace Decimal

/-- A minus sign for a negative number and nothing otherwise. -/
def signChars (d : Decimal) : List Char := if d.unscaled < 0 then ['-'] else []

/-- The digits `ds` with a point before the last `k` of them, after as many leading zeros as it
takes to have a digit before the point. -/
def plain (ds : List Char) (k : Nat) : List Char :=
  if k = 0 then ds
  else
    let padded := List.replicate (k + 1 - ds.length) '0' ++ ds
    padded.take (padded.length - k) ++ '.' :: padded.drop (padded.length - k)

/-- The digits `ds` with a point after the first of them, and the exponent `e`. -/
def scientific (ds : List Char) (e : Int) : List Char :=
  ds.take 1 ++ (if ds.length ≤ 1 then [] else '.' :: ds.drop 1) ++ 'E' :: signedDigits e

/-- The characters of the printed form. -/
def textChars (d : Decimal) : List Char :=
  let ds := digits d.unscaled.natAbs
  let exponent : Int := (ds.length : Int) - 1 - d.scale
  d.signChars ++
    (if 0 ≤ d.scale ∧ -6 ≤ exponent then plain ds d.scale.toNat else scientific ds exponent)

/-- The form in which a running program prints the decimal. -/
def text (d : Decimal) : String := String.ofList d.textChars

/-- The characters of the interchange form. The scale of zero is dropped. -/
def interchangeChars (d : Decimal) : List Char :=
  let ds := digits d.unscaled.natAbs
  let scale := if d.unscaled = 0 then 0 else d.scale
  d.signChars ++
    (if 5 < scale - ds.length then scientific ds ((ds.length : Int) - 1 - scale)
     else if 15 < -scale then ds ++ 'e' :: '+' :: digits scale.natAbs
     else if scale ≤ 0 then ds ++ List.replicate scale.natAbs '0'
     else plain ds scale.toNat)

/-- The form in which the decimal is kept in a tree written for interchange. -/
def interchangeText (d : Decimal) : String := String.ofList d.interchangeChars

end Decimal

end ObjectLang
