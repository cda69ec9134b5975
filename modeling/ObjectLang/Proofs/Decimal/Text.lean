import ObjectLang.Eval.Operator
import ObjectLang.Eval.Text
import ObjectLang.Program.Decode
import ObjectLang.Proofs.Decimal.Interchange

/-!
# The printed text of a decimal

What a program prints of a decimal keeps the digits and the scale: the text is one that the
interchange format reads, and it is read as the same decimal. So decimals that print alike are the
same decimal, and comparing two decimals for equality comes to comparing their texts.
-/

namespace ObjectLang.Decimal

/-- The exponent of the first digit. -/
def exponent (d : Decimal) : Int := ((digits d.unscaled.natAbs).length : Int) - 1 - d.scale

/-- The scale and the exponent of the first digit are words of 64 bits, and hence so is the negated
scale. How many digits there are is not limited otherwise. -/
structure InRange (d : Decimal) : Prop where
  scale : fitsSigned 64 d.scale = true
  exponent : fitsSigned 64 d.exponent = true

/-- A printed decimal is read as it was, in plain notation and in scientific notation. -/
theorem parse?_text {d : Decimal} (h : d.InRange) : parse? d.text = some d := by
  have hexponent : fitsSigned 128 d.exponent = true := by
    have hfits := fitsSigned_iff.mp h.exponent
    exact fitsSigned_of_le (by omega) (by omega)
  rw [parse?, text, String.toList_ofList, textChars]
  split
  · next hplain => exact ofChars?_plain hplain.1 h.scale
  · exact ofChars?_scientific rfl hexponent h.scale

/-- Decimals that print alike are the same decimal. -/
theorem text_eq_iff {a b : Decimal} (ha : a.InRange) (hb : b.InRange) : a.text = b.text ↔ a = b := by
  constructor
  · intro htext
    have hread := parse?_text ha
    rw [htext, parse?_text hb, Option.some.injEq] at hread
    exact hread.symm
  · rintro rfl
    rfl

/-- What is printed of a decimal is read back as a literal for this very decimal, and two decimals
are equal for a running program if and only if it prints the same of both. -/
theorem print_lossless (w w' : World) {a b : Decimal} (ha : a.InRange) (hb : b.InRange) :
    Literal.ofJson? (.object [("Decimal", .string (w.print (.decimal a)))]) = some (.decimal a) ∧
      Operator.apply w.print .eq (.decimal a) (.decimal b) =
        .ok (.boolean (decide (w.print (.decimal a) = w'.print (.decimal b)))) := by
  have hprint (w : World) (d : Decimal) : w.print (.decimal d) = d.text := rfl
  constructor
  · show (parse? (w.print (.decimal a))).map Literal.decimal = _
    rw [hprint, parse?_text ha]
    rfl
  · show Except.ok (Value.boolean (a == b)) = _
    rw [hprint, hprint, decide_eq_decide.mpr (text_eq_iff ha hb)]
    rfl

/-- Twelve hundreds are not printed like twelve hundred ones, and are not equal to them. -/
theorem print_lossless_hundreds :
    InRange ⟨-12, -2⟩ ∧ InRange ⟨-1200, 0⟩ ∧
      World.print {} (.decimal ⟨-12, -2⟩) = "-1.2E+3" ∧
      Literal.ofJson? (.object [("Decimal", .string (World.print {} (.decimal ⟨-12, -2⟩)))]) =
        some (.decimal ⟨-12, -2⟩) ∧
      Operator.apply (World.print {}) .eq (.decimal ⟨-12, -2⟩) (.decimal ⟨-1200, 0⟩) =
        .ok (.boolean false) := by
  have ha : InRange ⟨-12, -2⟩ := ⟨by decide, by decide⟩
  have hb : InRange ⟨-1200, 0⟩ := ⟨by decide, by decide⟩
  obtain ⟨hread, hequal⟩ := print_lossless {} {} ha hb
  have hdifferent : World.print {} (.decimal ⟨-12, -2⟩) ≠ World.print {} (.decimal ⟨-1200, 0⟩) := by
    decide
  rw [decide_eq_false hdifferent] at hequal
  exact ⟨ha, hb, by decide, hread, hequal⟩

end ObjectLang.Decimal
