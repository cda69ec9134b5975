/-!
# Classes of characters

A class of characters is a property that the Unicode standard gives to code points. It is listed as
ranges of code points, in ascending order, and a character belongs to the class if one of the
ranges holds it.
-/

namespace ObjectLang

/-- Whether the character lies in one of the ranges, whose ends are included. -/
def inRanges (ranges : List (Nat × Nat)) (c : Char) : Bool :=
  ranges.any fun r => decide (r.1 ≤ c.toNat) && decide (c.toNat ≤ r.2)

end ObjectLang
