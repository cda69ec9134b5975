import ObjectLang.Proofs.Decimal.Reading

/-!
# Decimals through interchange

A decimal that is written for interchange and read again is the same number, but it need not be the
same decimal: zero loses its scale, and a negative scale turns into zeros if there are at most
fifteen of them. `Decimal.interchanged` is the decimal that comes back, and a decimal that comes
back as it was is *stable*.
-/

namespace ObjectLang.Decimal

/-! ## Written forms and their parts -/

/-- Plain notation has as many places as asked for, and its digits are the given ones behind zeros.
-/
theorem plain_eq_pointed {ds : List Char} (hds : ds ≠ []) (k : Nat) :
    ∃ whole fraction m, plain ds k = pointed whole fraction ∧ whole ≠ [] ∧ fraction.length = k ∧
      whole ++ fraction = List.replicate m '0' ++ ds := by
  unfold plain
  by_cases hk : k = 0
  · rw [if_pos hk]
    refine ⟨ds, [], 0, ?_, hds, hk.symm, ?_⟩
    · rw [pointed, if_pos rfl, List.append_nil]
    · rw [List.append_nil, List.replicate_zero, List.nil_append]
  · rw [if_neg hk]
    dsimp only
    generalize hpadded : List.replicate (k + 1 - ds.length) '0' ++ ds = padded
    have hlength : k + 1 ≤ padded.length := by
      rw [← hpadded, List.length_append, List.length_replicate]
      omega
    refine ⟨padded.take (padded.length - k), padded.drop (padded.length - k), k + 1 - ds.length,
      ?_, ?_, ?_, ?_⟩
    · rw [pointed, if_neg]
      intro hnil
      have hdrop := List.drop_eq_nil_iff.mp hnil
      omega
    · intro hnil
      rcases List.take_eq_nil_iff.mp hnil with hzero | hnil
      · omega
      · rw [hnil, List.length_nil] at hlength
        omega
    · rw [List.length_drop]
      omega
    · rw [List.take_append_drop, hpadded]

/-- Scientific notation has one digit before the point. -/
theorem scientific_eq_pointed (ds : List Char) (e : Int) :
    scientific ds e = pointed (ds.take 1) (ds.drop 1) ++ 'E' :: signedDigits e := by
  have hiff : ds.length ≤ 1 ↔ ds.drop 1 = [] := List.drop_eq_nil_iff.symm
  rw [scientific, pointed]
  by_cases hlength : ds.length ≤ 1
  · rw [if_pos hlength, if_pos (hiff.mp hlength)]
  · rw [if_neg hlength, if_neg fun h => hlength (hiff.mpr h)]

/-! ## What is read from written forms -/

/-- Plain notation is read as the decimal that was written. -/
theorem ofChars?_plain {d : Decimal} (hscale : 0 ≤ d.scale) (hfits : fitsSigned 64 d.scale = true) :
    ofChars? (d.signChars ++ plain (digits d.unscaled.natAbs) d.scale.toNat) = some d := by
  obtain ⟨whole, fraction, m, hplain, hwhole, hlength, hparts⟩ :=
    plain_eq_pointed (digits_ne_nil d.unscaled.natAbs) d.scale.toNat
  have hdigits : ∀ c ∈ whole ++ fraction, c.isDigit = true := by
    intro c hc
    rw [hparts, List.mem_append, List.mem_replicate] at hc
    rcases hc with ⟨-, rfl⟩ | hc
    · decide
    · exact isDigit_of_mem_digits hc
  have hplaces : (fraction.length : Int) - 0 = d.scale := by
    rw [hlength, Int.sub_zero, Int.toNat_of_nonneg hscale]
  have htail : readExponent? [] = some 0 := rfl
  have hread := ofChars?_parts d hwhole hdigits (by simp) htail (hplaces ▸ hfits)
  rw [List.append_nil, hplaces, hparts, ofDigitChars_zeros_append, ofDigitChars_digits] at hread
  have hvalue := ite_neg_natAbs d.unscaled 1
  rw [Nat.mul_one, Int.natCast_one, Int.mul_one] at hvalue
  rw [hplain, hread, hvalue]

/-- Digits with an exponent are read as the decimal that was written, wherever the point stands
among them. -/
theorem ofChars?_exponent {d : Decimal} {whole fraction tail : List Char} {e : Int}
    (hwhole : whole ≠ []) (hparts : whole ++ fraction = digits d.unscaled.natAbs)
    (hmark : ∀ c ∈ tail.head?, isExponentMark c = true) (htail : readExponent? tail = some e)
    (hscale : (fraction.length : Int) - e = d.scale) (hfits : fitsSigned 64 d.scale = true) :
    ofChars? (d.signChars ++ pointed whole fraction ++ tail) = some d := by
  have hdigits : ∀ c ∈ whole ++ fraction, c.isDigit = true := by
    intro c hc
    rw [hparts] at hc
    exact isDigit_of_mem_digits hc
  have hread := ofChars?_parts d hwhole hdigits hmark htail (hscale ▸ hfits)
  rw [hscale, hparts, ofDigitChars_digits] at hread
  have hvalue := ite_neg_natAbs d.unscaled 1
  rw [Nat.mul_one, Int.natCast_one, Int.mul_one] at hvalue
  rw [hread, hvalue]

/-- Scientific notation is read as the decimal that was written. -/
theorem ofChars?_scientific {d : Decimal} {e : Int}
    (he : e = ((digits d.unscaled.natAbs).length : Int) - 1 - d.scale)
    (hexponent : fitsSigned 128 e = true) (hfits : fitsSigned 64 d.scale = true) :
    ofChars? (d.signChars ++ scientific (digits d.unscaled.natAbs) e) = some d := by
  have hpos : 0 < (digits d.unscaled.natAbs).length :=
    List.length_pos_iff.mpr (digits_ne_nil d.unscaled.natAbs)
  have hwhole : (digits d.unscaled.natAbs).take 1 ≠ [] := by
    intro hnil
    rcases List.take_eq_nil_iff.mp hnil with hzero | hnil
    · cases hzero
    · exact digits_ne_nil _ hnil
  have hmark : ∀ c ∈ ('E' :: signedDigits e).head?, isExponentMark c = true := by
    intro c hc
    cases hc
    decide
  have hscale : (((digits d.unscaled.natAbs).drop 1).length : Int) - e = d.scale := by
    rw [List.length_drop]
    omega
  rw [scientific_eq_pointed, ← List.append_assoc]
  exact ofChars?_exponent hwhole (List.take_append_drop 1 _) hmark
    (readExponent?_signedDigits 'E' hexponent) hscale hfits

/-- Digits with zeros after them are read as the product with a power of ten, at scale zero. -/
theorem ofChars?_zeros (d : Decimal) (k : Nat) :
    ofChars? (d.signChars ++ (digits d.unscaled.natAbs ++ List.replicate k '0')) =
      some ⟨d.unscaled * tenPow k, 0⟩ := by
  have hne : digits d.unscaled.natAbs ++ List.replicate k '0' ≠ [] := fun h =>
    digits_ne_nil _ (List.append_eq_nil_iff.mp h).1
  have hdigits : ∀ c ∈ (digits d.unscaled.natAbs ++ List.replicate k '0') ++ [],
      c.isDigit = true := by
    intro c hc
    rw [List.append_nil, List.mem_append, List.mem_replicate] at hc
    rcases hc with hc | ⟨-, rfl⟩
    · exact isDigit_of_mem_digits hc
    · decide
  have htail : readExponent? [] = some 0 := rfl
  have hread := ofChars?_parts d hne hdigits (by simp) htail (by decide)
  rw [List.append_nil, List.append_nil, pointed, if_pos rfl, List.append_nil,
    ofDigitChars_append_zeros, ofDigitChars_digits, ite_neg_natAbs] at hread
  exact hread

/-! ## The decimal that comes back -/

/-- What the decimal is after interchange. -/
def interchanged (d : Decimal) : Decimal :=
  if d.unscaled = 0 then ⟨0, 0⟩
  else if -15 ≤ d.scale ∧ d.scale < 0 then ⟨d.unscaled * tenPow d.scale.natAbs, 0⟩
  else d

/-- Interchange keeps the digits and the scale. -/
def Stable (d : Decimal) : Prop := (d.unscaled = 0 → d.scale = 0) ∧ (d.scale < -15 ∨ 0 ≤ d.scale)

instance (d : Decimal) : Decidable d.Stable := inferInstanceAs (Decidable (_ ∧ _))

theorem interchanged_eq_iff {d : Decimal} : d.interchanged = d ↔ d.Stable := by
  obtain ⟨unscaled, scale⟩ := d
  rw [interchanged, Stable]
  dsimp only
  by_cases hzero : unscaled = 0
  · rw [if_pos hzero, Decimal.mk.injEq]
    constructor
    · rintro ⟨-, rfl⟩
      exact ⟨fun _ => rfl, .inr (Int.le_refl 0)⟩
    · rintro ⟨hscale, -⟩
      exact ⟨hzero.symm, (hscale hzero).symm⟩
  · rw [if_neg hzero]
    by_cases hsmall : -15 ≤ scale ∧ scale < 0
    · rw [if_pos hsmall, Decimal.mk.injEq]
      constructor
      · rintro ⟨-, rfl⟩
        omega
      · rintro ⟨-, hscale⟩
        omega
    · rw [if_neg hsmall]
      refine ⟨fun _ => ⟨fun h => absurd h hzero, by omega⟩, fun _ => rfl⟩

/-- What has come back comes back as it is. -/
theorem stable_interchanged (d : Decimal) : d.interchanged.Stable := by
  by_cases hzero : d.unscaled = 0
  · rw [interchanged, if_pos hzero]
    decide
  · rw [interchanged, if_neg hzero]
    split
    · exact ⟨fun _ => rfl, .inr (Int.le_refl 0)⟩
    · next hscale => exact ⟨fun h => absurd h hzero, by omega⟩

theorem fitsSigned_scale_interchanged {d : Decimal} (h : fitsSigned 64 d.scale = true) :
    fitsSigned 64 d.interchanged.scale = true := by
  have hzero : fitsSigned 64 0 = true := by decide
  rw [interchanged]
  split
  · exact hzero
  · split
    · exact hzero
    · exact h

/-- Exponents up to the size of a scale fit in the larger word that exponents are read in. -/
theorem fitsSigned_of_le {e : Int} (hlow : -(2 ^ 63) ≤ e) (hhigh : e ≤ 2 ^ 63) :
    fitsSigned 128 e = true :=
  fitsSigned_iff.mpr ⟨by omega, by omega⟩

/-- A decimal whose scale fits in its word is read back from its interchange form. -/
theorem parse?_interchangeText {d : Decimal} (hfits : fitsSigned 64 d.scale = true) :
    parse? d.interchangeText = some d.interchanged := by
  have hrange : -(2 ^ 63) ≤ d.scale ∧ d.scale < 2 ^ 63 := fitsSigned_iff.mp hfits
  have hpos : 0 < (digits d.unscaled.natAbs).length :=
    List.length_pos_iff.mpr (digits_ne_nil d.unscaled.natAbs)
  rw [parse?, interchangeText, String.toList_ofList, interchangeChars, interchanged]
  by_cases hzero : d.unscaled = 0
  · have hread := ofChars?_zeros d 0
    rw [if_pos hzero, if_pos hzero]
    rw [hzero] at hread ⊢
    exact hread
  rw [if_neg hzero, if_neg hzero]
  by_cases hsmall : 5 < d.scale - (digits d.unscaled.natAbs).length
  · have hnot : ¬ (-15 ≤ d.scale ∧ d.scale < 0) := by omega
    rw [if_pos hsmall, if_neg hnot]
    exact ofChars?_scientific rfl (fitsSigned_of_le (by omega) (by omega)) hfits
  rw [if_neg hsmall]
  by_cases hlarge : 15 < -d.scale
  · have hnot : ¬ (-15 ≤ d.scale ∧ d.scale < 0) := by omega
    have htail : 'e' :: '+' :: digits d.scale.natAbs = 'e' :: signedDigits (-d.scale) := by
      rw [signedDigits, if_neg (by omega), Int.natAbs_neg]
    have hexponent := readExponent?_signedDigits 'e' (e := -d.scale)
      (fitsSigned_of_le (by omega) (by omega))
    have hread := ofChars?_exponent (d := d) (digits_ne_nil _) (List.append_nil _)
      (by simp [isExponentMark]) hexponent (by simp) hfits
    rw [pointed, if_pos rfl, List.append_nil, List.append_assoc] at hread
    rw [if_pos hlarge, if_neg hnot, htail]
    exact hread
  rw [if_neg hlarge]
  by_cases hnegative : d.scale ≤ 0
  · rw [if_pos hnegative, ofChars?_zeros]
    by_cases hscale : d.scale = 0
    · have hone : tenPow d.scale.natAbs = 1 := by rw [hscale]; rfl
      rw [if_neg (by omega), hone, Int.mul_one]
      exact congrArg (fun k => some (Decimal.mk d.unscaled k)) hscale.symm
    · rw [if_pos (by omega)]
  · rw [if_neg hnegative, if_neg (by omega)]
    exact ofChars?_plain (by omega) hfits

/-! ## The number that comes back -/

/-- The text of a decimal consists of its digits alone at scale zero only. -/
theorem mem_textChars_iff {d : Decimal} :
    ('.' ∈ d.textChars ∨ 'E' ∈ d.textChars) ↔ d.scale ≠ 0 := by
  rw [textChars]
  by_cases hscale : d.scale = 0
  · have hplain : 0 ≤ d.scale ∧ -6 ≤ ((digits d.unscaled.natAbs).length : Int) - 1 - d.scale := by
      omega
    have hall : ∀ {c : Char}, c ≠ '-' → c.isDigit = false →
        c ∉ d.signChars ++ digits d.unscaled.natAbs := by
      intro c hsign hdigit hmem
      rcases List.mem_append.mp hmem with hmem | hmem
      · exact notMem_signChars d hsign hmem
      · exact ne_of_isDigit (isDigit_of_mem_digits hmem) hdigit rfl
    rw [if_pos hplain, hscale, Int.toNat_zero, plain, if_pos rfl]
    have hpoint := hall (c := '.') (by decide) (by decide)
    have hmark := hall (c := 'E') (by decide) (by decide)
    simp [hpoint, hmark]
  · refine ⟨fun _ => hscale, fun _ => ?_⟩
    split
    · next hplain =>
      left
      rw [plain, if_neg (by omega)]
      simp
    · right
      simp [scientific]

theorem scale_of_not_stable {d : Decimal} (h : ¬ d.Stable) :
    d.scale ≠ 0 ∧ d.interchanged.scale = 0 := by
  constructor
  · exact fun hscale => h ⟨fun _ => hscale, .inr (Int.le_of_eq hscale.symm)⟩
  · rw [interchanged]
    split
    · rfl
    · next hzero =>
      rw [if_pos]
      by_contra hscale
      exact h ⟨fun hu => absurd hu hzero, by omega⟩

/-- The printed text tells whether a decimal has come back as it was. -/
theorem text_interchanged_iff {d : Decimal} : d.interchanged.text = d.text ↔ d.Stable := by
  constructor
  · intro htext
    by_contra hstable
    obtain ⟨hscale, hzero⟩ := scale_of_not_stable hstable
    have hmarks := mem_textChars_iff.mpr hscale
    rw [← String.ofList_injective htext] at hmarks
    exact mem_textChars_iff.mp hmarks hzero
  · intro hstable
    rw [interchanged_eq_iff.mpr hstable]

end ObjectLang.Decimal
