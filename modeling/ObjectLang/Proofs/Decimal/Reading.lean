import Mathlib.Data.List.TakeWhile
import ObjectLang.Decimal.Reading
import ObjectLang.Decimal.Text

/-!
# Reading written decimals

Every written form of a decimal has the same parts: a sign, digits, perhaps a point and more digits,
and perhaps an exponent. `Decimal.ofChars?_parts` says what is read from the parts. Together with
how the written forms are cut into parts it settles what is read from them.
-/

namespace ObjectLang

/-! ## Digits -/

theorem digits_ne_nil (n : Nat) : digits n ≠ [] := Nat.toDigits_ne_nil

theorem isDigit_of_mem_digits {n : Nat} {c : Char} (h : c ∈ digits n) : c.isDigit = true :=
  Nat.isDigit_of_mem_toDigits (by decide) (by decide) h

theorem ofDigitChars_digits (n : Nat) : Nat.ofDigitChars 10 (digits n) 0 = n :=
  Nat.ofDigitChars_ten_toDigits

/-- Zeros in front do not count. -/
theorem ofDigitChars_zeros_append (k : Nat) (cs : List Char) :
    Nat.ofDigitChars 10 (List.replicate k '0' ++ cs) 0 = Nat.ofDigitChars 10 cs 0 := by
  rw [Nat.ofDigitChars_append, Nat.ofDigitChars_replicate_zero, Nat.mul_zero]

/-- Each zero at the end counts as a factor ten. -/
theorem ofDigitChars_append_zeros (k : Nat) (cs : List Char) :
    Nat.ofDigitChars 10 (cs ++ List.replicate k '0') 0 = Nat.ofDigitChars 10 cs 0 * 10 ^ k := by
  rw [Nat.ofDigitChars_append, Nat.ofDigitChars_replicate_zero, Nat.mul_comm]

theorem fitsSigned_iff {bits : Nat} {n : Int} :
    fitsSigned bits n = true ↔ -(2 ^ (bits - 1) : Int) ≤ n ∧ n < (2 ^ (bits - 1) : Int) := by
  rw [fitsSigned, Bool.and_eq_true, decide_eq_true_iff, decide_eq_true_iff]

namespace Decimal

theorem ne_of_isDigit {c c' : Char} (h : c.isDigit = true) (h' : c'.isDigit = false) : c ≠ c' := by
  rintro rfl
  rw [h] at h'
  cases h'

theorem isExponentMark_of_isDigit {c : Char} (h : c.isDigit = true) :
    isExponentMark c = false := by
  have he : c ≠ 'e' := ne_of_isDigit h (by decide)
  have hE : c ≠ 'E' := ne_of_isDigit h (by decide)
  simp [isExponentMark, he, hE]

/-! ## Whole numbers -/

/-- A nonempty run of digits is read as the number that it spells. -/
theorem readDigits?_eq {cs : List Char} (hne : cs ≠ []) (hdigits : ∀ c ∈ cs, c.isDigit = true) :
    readDigits? cs = some (Nat.ofDigitChars 10 cs 0) := by
  have hall : cs.all Char.isDigit = true := List.all_eq_true.mpr hdigits
  have hempty : cs.isEmpty = false := List.isEmpty_eq_false_iff.mpr hne
  rw [readDigits?, hall, hempty]
  rfl

/-- The same holds where underscores may separate digits. -/
theorem readGroupedDigits?_eq {cs : List Char} (hne : cs ≠ [])
    (hdigits : ∀ c ∈ cs, c.isDigit = true) :
    readGroupedDigits? cs = some (Nat.ofDigitChars 10 cs 0) := by
  have hunderscore : ∀ c ∈ cs, c ≠ '_' := fun c hc => ne_of_isDigit (hdigits c hc) (by decide)
  have hfilter : cs.filter (· ≠ '_') = cs := by
    rw [List.filter_eq_self]
    exact fun c hc => decide_eq_true (hunderscore c hc)
  have hall : cs.all (fun c => c.isDigit || c == '_') = true := by
    rw [List.all_eq_true]
    intro c hc
    rw [hdigits c hc, Bool.true_or]
  obtain ⟨c, rest, rfl⟩ := List.exists_cons_of_ne_nil hne
  have hfirst : c ≠ '_' := hunderscore c List.mem_cons_self
  rw [readGroupedDigits?, hall, hfilter]
  simp [hfirst]

/-- A text without sign spells a number that is not negative. -/
theorem readSigned?_of_isDigit {read : List Char → Option Nat} {cs : List Char}
    (hdigits : ∀ c ∈ cs.head?, c.isDigit = true) :
    readSigned? read cs = (read cs).map fun n => (n : Int) := by
  unfold readSigned?
  split
  · exact absurd (hdigits '-' rfl) (by decide)
  · exact absurd (hdigits '+' rfl) (by decide)
  · rfl

/-- Behind the sign of a decimal, digits spell a number with the sign of the decimal. -/
theorem readSigned?_signChars (d : Decimal) {cs : List Char} (hne : cs ≠ [])
    (hdigits : ∀ c ∈ cs, c.isDigit = true) :
    readSigned? readGroupedDigits? (d.signChars ++ cs) =
      some (if d.unscaled < 0 then -(Nat.ofDigitChars 10 cs 0 : Int)
        else Nat.ofDigitChars 10 cs 0) := by
  have hread := readGroupedDigits?_eq hne hdigits
  unfold signChars
  by_cases hneg : d.unscaled < 0
  · rw [if_pos hneg, if_pos hneg, List.singleton_append, readSigned?, hread]
    rfl
  · rw [if_neg hneg, if_neg hneg, List.nil_append, readSigned?_of_isDigit, hread]
    · rfl
    · exact fun c hc => hdigits c (List.mem_of_mem_head? hc)

/-- The sign and the size make up the number. -/
theorem ite_neg_natAbs (x : Int) (m : Nat) :
    (if x < 0 then -((x.natAbs * m : Nat) : Int) else ((x.natAbs * m : Nat) : Int)) = x * m := by
  rw [Int.natCast_mul]
  split
  · next hneg => rw [← Int.neg_mul, ← Int.eq_neg_natAbs_of_nonpos (Int.le_of_lt hneg)]
  · next hneg => rw [Int.natAbs_of_nonneg (Int.not_lt.mp hneg)]

/-! ## Points and exponents -/

/-- Digits with a point before those of the fraction, if there are any. -/
def pointed (whole fraction : List Char) : List Char :=
  whole ++ if fraction = [] then [] else '.' :: fraction

/-- A number without a point has no places. -/
theorem splitPoint_of_notMem {cs : List Char} (h : '.' ∉ cs) : splitPoint cs = (cs, 0) := by
  have hall : ∀ c ∈ cs, decide (c ≠ '.') = true := fun c hc =>
    decide_eq_true fun heq => h (heq ▸ hc)
  have htake : cs.takeWhile (· ≠ '.') = cs := List.takeWhile_eq_self_iff.mpr hall
  have hdrop : cs.dropWhile (· ≠ '.') = [] := List.dropWhile_eq_nil_iff.mpr hall
  rw [splitPoint, htake, hdrop]

/-- A point with digits after it is dropped, and the digits are counted. -/
theorem splitPoint_of_point {cs fraction : List Char} (h : '.' ∉ cs) (hne : fraction ≠ [])
    (hdigits : ∀ c ∈ fraction, c.isDigit = true) :
    splitPoint (cs ++ '.' :: fraction) = (cs ++ fraction, fraction.length) := by
  have hall : ∀ c ∈ cs, decide (c ≠ '.') = true := fun c hc =>
    decide_eq_true fun heq => h (heq ▸ hc)
  have htake : (cs ++ '.' :: fraction).takeWhile (· ≠ '.') = cs := by
    rw [List.takeWhile_append_of_pos hall]
    simp
  have hdrop : (cs ++ '.' :: fraction).dropWhile (· ≠ '.') = '.' :: fraction := by
    rw [List.dropWhile_append_of_pos hall]
    simp
  have hfilter : fraction.filter (· ≠ '_') = fraction := by
    rw [List.filter_eq_self]
    exact fun c hc => decide_eq_true (ne_of_isDigit (hdigits c hc) (by decide))
  obtain ⟨first, rest, rfl⟩ := List.exists_cons_of_ne_nil hne
  rw [splitPoint, hdrop, htake]
  dsimp only
  rw [hfilter]

theorem splitPoint_pointed {sign whole fraction : List Char} (hsign : '.' ∉ sign)
    (hdigits : ∀ c ∈ whole ++ fraction, c.isDigit = true) :
    splitPoint (sign ++ pointed whole fraction) =
      (sign ++ (whole ++ fraction), fraction.length) := by
  have hwhole : '.' ∉ sign ++ whole := by
    intro hmem
    rcases List.mem_append.mp hmem with hmem | hmem
    · exact hsign hmem
    · exact absurd (hdigits '.' (List.mem_append_left _ hmem)) (by decide)
  unfold pointed
  by_cases hfraction : fraction = []
  · rw [if_pos hfraction, hfraction, List.append_nil, splitPoint_of_notMem hwhole]
    rfl
  · rw [if_neg hfraction, ← List.append_assoc, ← List.append_assoc]
    exact splitPoint_of_point hwhole hfraction fun c hc => hdigits c (List.mem_append_right _ hc)

theorem notMem_signChars (d : Decimal) {c : Char} (hc : c ≠ '-') : c ∉ d.signChars := by
  unfold signChars
  split
  · simpa using hc
  · simp

/-- What is read from a sign, digits with a point among them, and an exponent. -/
theorem ofChars?_parts (d : Decimal) {whole fraction tail : List Char} {e : Int}
    (hwhole : whole ≠ []) (hdigits : ∀ c ∈ whole ++ fraction, c.isDigit = true)
    (hmark : ∀ c ∈ tail.head?, isExponentMark c = true) (htail : readExponent? tail = some e)
    (hfits : fitsSigned 64 ((fraction.length : Int) - e) = true) :
    ofChars? (d.signChars ++ pointed whole fraction ++ tail) =
      some ⟨if d.unscaled < 0 then -(Nat.ofDigitChars 10 (whole ++ fraction) 0 : Int)
        else Nat.ofDigitChars 10 (whole ++ fraction) 0, (fraction.length : Int) - e⟩ := by
  have hnumber : ∀ c ∈ d.signChars ++ pointed whole fraction, (!isExponentMark c) = true := by
    intro c hc
    have hcases : c = '-' ∨ c = '.' ∨ c ∈ whole ++ fraction := by
      by_cases hminus : c = '-'
      · exact .inl hminus
      · rcases List.mem_append.mp hc with hc | hc
        · exact absurd hc (d.notMem_signChars hminus)
        · unfold pointed at hc
          split at hc
          · rw [List.append_nil] at hc
            exact .inr (.inr (List.mem_append_left _ hc))
          · rcases List.mem_append.mp hc with hc | hc
            · exact .inr (.inr (List.mem_append_left _ hc))
            · rcases List.mem_cons.mp hc with hc | hc
              · exact .inr (.inl hc)
              · exact .inr (.inr (List.mem_append_right _ hc))
    rcases hcases with rfl | rfl | hc
    · decide
    · decide
    · rw [isExponentMark_of_isDigit (hdigits c hc)]
      rfl
  have htake : tail.takeWhile (!isExponentMark ·) = [] := by
    cases tail with
    | nil => rfl
    | cons c rest => simp [hmark c rfl]
  have hdrop : tail.dropWhile (!isExponentMark ·) = tail := by
    cases tail with
    | nil => rfl
    | cons c rest => simp [hmark c rfl]
  have hne : whole ++ fraction ≠ [] := fun h => hwhole (List.append_eq_nil_iff.mp h).1
  rw [ofChars?, List.takeWhile_append_of_pos hnumber, List.dropWhile_append_of_pos hnumber, htake,
    hdrop, List.append_nil, htail, splitPoint_pointed (d.notMem_signChars (by decide)) hdigits]
  simp only [Option.bind_eq_bind, Option.bind_some]
  rw [readSigned?_signChars d hne hdigits]
  simp [hfits]

/-- An exponent as it is written behind its mark. -/
theorem readExponent?_signedDigits (mark : Char) {e : Int} (h : fitsSigned 128 e = true) :
    readExponent? (mark :: signedDigits e) = some e := by
  have hread := readDigits?_eq (digits_ne_nil e.natAbs) fun c hc => isDigit_of_mem_digits hc
  rw [ofDigitChars_digits] at hread
  have hsigned : readSigned? readDigits? (signedDigits e) = some e := by
    unfold signedDigits
    split
    · next hneg =>
      rw [readSigned?, hread]
      exact congrArg some (Int.eq_neg_natAbs_of_nonpos (Int.le_of_lt hneg)).symm
    · next hneg =>
      rw [readSigned?, hread]
      exact congrArg some (Int.natAbs_of_nonneg (Int.not_lt.mp hneg))
  rw [readExponent?, hsigned]
  simp [h]

end Decimal

end ObjectLang
