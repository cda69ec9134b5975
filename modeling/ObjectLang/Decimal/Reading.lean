import ObjectLang.Decimal.Basic

/-!
# Reading a decimal

The accepted texts are an optional sign, digits with at most one point among them, and an optional
exponent. Underscores may separate digits, except at the front. The scale is the number of digits
after the point less the exponent, and has to fit in 64 bits; the exponent has to fit in 128 bits.
-/

namespace ObjectLang

/-- Whether `n` fits in a signed word of `bits` bits. -/
def fitsSigned (bits : Nat) (n : Int) : Bool :=
  decide (-(2 ^ (bits - 1) : Int) ≤ n) && decide (n < (2 ^ (bits - 1) : Int))

namespace Decimal

/-- A natural number: at least one character, all of them ASCII digits. -/
def readDigits? (cs : List Char) : Option Nat :=
  if !cs.isEmpty && cs.all Char.isDigit then some (Nat.ofDigitChars 10 cs 0) else none

/-- A natural number whose digits may be separated by underscores, not the first of them. -/
def readGroupedDigits? (cs : List Char) : Option Nat :=
  match cs with
  | [] => none
  | c :: _ =>
    if c ≠ '_' && cs.all (fun c => c.isDigit || c == '_') then
      some (Nat.ofDigitChars 10 (cs.filter (· ≠ '_')) 0)
    else none

/-- Reads an optional sign and hands the rest to `read`. -/
def readSigned? (read : List Char → Option Nat) (cs : List Char) : Option Int :=
  match cs with
  | '-' :: rest => (read rest).map fun n => -(n : Int)
  | '+' :: rest => (read rest).map fun n => (n : Int)
  | _ => (read cs).map fun n => (n : Int)

/-- The whole number that a text spells: an optional sign, then digits that underscores may
separate. -/
def parseInt? (s : String) : Option Int := readSigned? readGroupedDigits? s.toList

/-- The part before the exponent: its digits without the point, and how many digits follow the
point. A point at the very end is dropped. -/
def splitPoint (cs : List Char) : List Char × Nat :=
  match cs.dropWhile (· ≠ '.') with
  | [] | [_] => (cs.takeWhile (· ≠ '.'), 0)
  | _ :: fraction =>
    (cs.takeWhile (· ≠ '.') ++ fraction, (fraction.filter (· ≠ '_')).length)

/-- Whether `c` starts an exponent. -/
def isExponentMark (c : Char) : Bool := c == 'e' || c == 'E'

/-- The exponent after the number: zero where none is written. -/
def readExponent? (cs : List Char) : Option Int :=
  match cs with
  | [] => some 0
  | _ :: rest => (readSigned? readDigits? rest).filter (fitsSigned 128)

/-- The decimal that the characters spell, if they spell one. -/
def ofChars? (cs : List Char) : Option Decimal := do
  let number := cs.takeWhile (!isExponentMark ·)
  let exponent ← readExponent? (cs.dropWhile (!isExponentMark ·))
  let (whole, places) := splitPoint number
  let unscaled ← readSigned? readGroupedDigits? whole
  let scale := (places : Int) - exponent
  if fitsSigned 64 scale then some ⟨unscaled, scale⟩ else none

/-- The decimal that the text spells, if it spells one. -/
def parse? (s : String) : Option Decimal := ofChars? s.toList

end Decimal

end ObjectLang
