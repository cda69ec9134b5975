import ObjectLang.Eval.Text
import ObjectLang.Proofs.Decimal.Order
import ObjectLang.Proofs.Value.Sameness

/-!
# Comparisons

Truth values, numbers and texts are compared by kind. The four comparisons of a kind are tests of
one total order. For all kinds but decimals two values that are at most each other are equal.
Decimals are ordered as numbers but are equal only if their scales are, so there the order is one of
the numbers, and of these the difference of the operands tells the same as their comparison.
-/

namespace ObjectLang

/-- The value is a number below zero. -/
def Value.IsNegative : Value → Prop
  | .integer n => n < 0
  | .decimal d => d.number < 0
  | _ => False

namespace Operator

/-- The difference of the two values is a decimal that stands for the number zero. -/
def DifferByZero (print : Value → String) (a b : Value) : Prop :=
  ∃ d, sub.evaluate print a b = .ok (.decimal d) ∧ d.number = 0

/-- On the values of the kind the comparisons are those of a total order, which agrees with equality
and with differences. -/
structure OrdersKind (print : Value → String) (k : Kind) : Prop where
  succeeds {op : Operator} {a b : Value} : op.isOrdering = true → a.kind = k → b.kind = k →
    ∃ x, op.evaluate print a b = .ok (.boolean x)
  irrefl {a : Value} : a.kind = k → ¬ less.Holds print a a
  trans {a b c : Value} : a.kind = k → b.kind = k → c.kind = k →
    less.Holds print a b → less.Holds print b c → less.Holds print a c
  total {a b : Value} : a.kind = k → b.kind = k →
    lessEq.Holds print a b ∨ lessEq.Holds print b a
  lessEq_iff {a b : Value} : a.kind = k → b.kind = k →
    (lessEq.Holds print a b ↔ ¬ greater.Holds print a b)
  greater_iff {a b : Value} : a.kind = k → b.kind = k →
    (greater.Holds print a b ↔ less.Holds print b a)
  greaterEq_iff {a b : Value} : a.kind = k → b.kind = k →
    (greaterEq.Holds print a b ↔ lessEq.Holds print b a)
  /-- Values that are at most each other are equal, unless they are decimals. -/
  antisymm {a b : Value} : k ≠ .decimal → a.kind = k → b.kind = k →
    (lessEq.Holds print a b ∧ lessEq.Holds print b a ↔ eq.Holds print a b)
  /-- Decimals that are at most each other stand for the same number. -/
  antisymm_decimal {a b : Value} : k = .decimal → a.kind = k → b.kind = k →
    (lessEq.Holds print a b ∧ lessEq.Holds print b a ↔ DifferByZero print a b)
  /-- So do equal decimals. -/
  differByZero {a b : Value} : k = .decimal → a.kind = k → b.kind = k → eq.Holds print a b →
    DifferByZero print a b
  /-- The sign of a difference tells how its operands compare. -/
  less_iff {a b : Value} : k = .integer ∨ k = .decimal → a.kind = k → b.kind = k →
    (less.Holds print a b ↔ ∃ v, sub.evaluate print a b = .ok v ∧ v.IsNegative)

variable {print : Value → String} {op : Operator} {a b c : Value} {o : Ordering} {k : Kind}

/-! ## The order of two values -/

/-- Two values of an ordered kind have an order, and the other way round the swapped one. -/
theorem exists_order (hk : k.isOrdered = true) (ha : a.kind = k) (hb : b.kind = k) :
    ∃ o, order? a b = some o ∧ order? b a = some o.swap := by
  subst ha
  cases a with
  | boolean x | integer x | decimal x | string x =>
    cases b with
    | boolean y | integer y | decimal y | string y =>
      first
      | exact ⟨_, rfl, congrArg some Std.OrientedCmp.eq_swap⟩
      | cases hb
    | _ => cases hb
  | _ => cases hk

theorem order?_trans (hab : order? a b = some .lt) (hbc : order? b c = some .lt) :
    order? a c = some .lt := by
  unfold order? at hab
  split at hab
  case h_5 => cases hab
  all_goals
    cases c with
    | boolean _ | integer _ | decimal _ | string _ =>
      first
      | exact congrArg some
          (Std.TransCmp.lt_trans (Option.some.inj hab) (Option.some.inj hbc))
      | cases hbc
    | _ => cases hbc

/-- Apart from decimals, values compare as equal if they are the same. -/
theorem order?_eq_eq_iff (hk : k.isOrdered = true) (hdecimal : k ≠ .decimal) (ha : a.kind = k)
    (hb : b.kind = k) : order? a b = some .eq ↔ a.same b = true := by
  subst ha
  cases a with
  | boolean x | integer x | string x =>
    cases b with
    | boolean y | integer y | string y =>
      first
      | rw [order?, Option.some.injEq, Std.LawfulEqCmp.compare_eq_iff_eq, Value.same, beq_iff_eq]
      | cases hb
    | _ => cases hb
  | decimal x => exact absurd rfl hdecimal
  | _ => cases hk

theorem exists_decimal {v : Value} (h : v.kind = .decimal) : ∃ d, v = .decimal d := by
  cases v with
  | decimal d => exact ⟨d, rfl⟩
  | _ => cases h

theorem differByZero_iff {x y : Decimal} :
    DifferByZero print (.decimal x) (.decimal y) ↔ x.number = y.number := by
  have hdifference :
      sub.evaluate print (.decimal x) (.decimal y) = .ok (.decimal (x.sub y)) := rfl
  rw [DifferByZero, hdifference, ← sub_eq_zero, ← Decimal.number_sub]
  constructor
  · rintro ⟨d, hd, hzero⟩
    cases hd
    exact hzero
  · exact fun hzero => ⟨_, rfl, hzero⟩

/-! ## Comparisons are tests of the order -/

theorem holds_iff {test : Ordering → Bool}
    (hop : op.evaluate print a b = op.ordering test a b) (h : order? a b = some o) :
    op.Holds print a b ↔ test o = true := by
  rw [Holds, hop, ordering, h]
  simp

theorem less_holds_iff (h : order? a b = some o) :
    less.Holds print a b ↔ o.isLT = true := holds_iff rfl h

theorem lessEq_holds_iff (h : order? a b = some o) :
    lessEq.Holds print a b ↔ o.isLE = true := holds_iff rfl h

theorem greater_holds_iff (h : order? a b = some o) :
    greater.Holds print a b ↔ o.isGT = true := holds_iff rfl h

theorem greaterEq_holds_iff (h : order? a b = some o) :
    greaterEq.Holds print a b ↔ o.isGE = true := holds_iff rfl h

/-- Two values are at most each other if they compare as equal. -/
theorem lessEq_antisymm_iff (hk : k.isOrdered = true) (ha : a.kind = k) (hb : b.kind = k) :
    lessEq.Holds print a b ∧ lessEq.Holds print b a ↔ order? a b = some .eq := by
  obtain ⟨o, hab, hba⟩ := exists_order hk ha hb
  rw [lessEq_holds_iff hab, lessEq_holds_iff hba, hab]
  cases o <;> simp

/-- The difference of two numbers is negative if the first one is less. -/
theorem less_holds_iff_negative (hk : k = .integer ∨ k = .decimal) (ha : a.kind = k)
    (hb : b.kind = k) :
    less.Holds print a b ↔ ∃ v, sub.evaluate print a b = .ok v ∧ v.IsNegative := by
  have hnegative {v : Value} (h : sub.evaluate print a b = .ok v) :
      (∃ u, sub.evaluate print a b = .ok u ∧ u.IsNegative) ↔ v.IsNegative := by
    rw [h]
    simp
  rcases hk with rfl | rfl
  · cases a with
    | integer x =>
      cases b with
      | integer y =>
        rw [hnegative rfl, less_holds_iff rfl, Ordering.isLT_iff_eq_lt, Value.IsNegative,
          Int.compare_eq_lt]
        omega
      | _ => cases hb
    | _ => cases ha
  · obtain ⟨x, rfl⟩ := exists_decimal ha
    obtain ⟨y, rfl⟩ := exists_decimal hb
    rw [hnegative rfl, less_holds_iff rfl, Ordering.isLT_iff_eq_lt,
      Decimal.compare_eq_compare_number, compare_lt_iff_lt, Value.IsNegative, Decimal.number_sub,
      sub_neg]

/-! ## The order of a kind -/

/-- The comparisons of truth values, of whole numbers, of decimals and of texts are those of a total
order each, which agrees with equality and with differences. -/
theorem comparisons_order (print : Value → String) (hk : k.isOrdered = true) :
    OrdersKind print k where
  succeeds hop ha hb := by
    obtain ⟨test, htest⟩ := evaluate_of_isOrdering print hop
    obtain ⟨o, hab, -⟩ := exists_order hk ha hb
    exact htest _ _ ▸ ordering_of_isSome _ test (by rw [hab]; rfl)
  irrefl {a} ha := by
    obtain ⟨o, haa, hswap⟩ := exists_order hk ha ha
    have hself : o = o.swap := Option.some.inj (haa.symm.trans hswap)
    rw [less_holds_iff haa]
    cases o with
    | eq => simp
    | lt | gt => cases hself
  trans ha hb hc hab hbc := by
    obtain ⟨o, hoab, -⟩ := exists_order hk ha hb
    obtain ⟨o', hobc, -⟩ := exists_order hk hb hc
    rw [less_holds_iff hoab, Ordering.isLT_iff_eq_lt] at hab
    rw [less_holds_iff hobc, Ordering.isLT_iff_eq_lt] at hbc
    subst hab hbc
    exact (less_holds_iff (order?_trans hoab hobc)).mpr rfl
  total ha hb := by
    obtain ⟨o, hab, hba⟩ := exists_order hk ha hb
    rw [lessEq_holds_iff hab, lessEq_holds_iff hba]
    cases o <;> simp
  lessEq_iff ha hb := by
    obtain ⟨o, hab, -⟩ := exists_order hk ha hb
    rw [lessEq_holds_iff hab, greater_holds_iff hab]
    cases o <;> simp
  greater_iff ha hb := by
    obtain ⟨o, hab, hba⟩ := exists_order hk ha hb
    rw [greater_holds_iff hab, less_holds_iff hba]
    cases o <;> simp
  greaterEq_iff ha hb := by
    obtain ⟨o, hab, hba⟩ := exists_order hk ha hb
    rw [greaterEq_holds_iff hab, lessEq_holds_iff hba]
    cases o <;> simp
  antisymm hdecimal ha hb := by
    rw [lessEq_antisymm_iff hk ha hb, order?_eq_eq_iff hk hdecimal ha hb, eq_holds_iff]
  antisymm_decimal hdecimal ha hb := by
    rw [lessEq_antisymm_iff hk ha hb]
    subst hdecimal
    obtain ⟨x, rfl⟩ := exists_decimal ha
    obtain ⟨y, rfl⟩ := exists_decimal hb
    rw [differByZero_iff, order?, Option.some.injEq, Decimal.compare_eq_compare_number,
      compare_eq_iff_eq]
  differByZero hdecimal ha hb heq := by
    subst hdecimal
    obtain ⟨x, rfl⟩ := exists_decimal ha
    obtain ⟨y, rfl⟩ := exists_decimal hb
    rw [eq_holds_iff, Value.same, beq_iff_eq] at heq
    rw [differByZero_iff, heq]
  less_iff hnumber ha hb := less_holds_iff_negative hnumber ha hb

/-- A thousand at scale -3, at scale 2 and one unit of scale 2 more. The first two stand for the
same number but are not equal, and the third is above both. -/
theorem comparisons_order_thousands :
    Kind.decimal.isOrdered = true ∧ OrdersKind (World.print {}) .decimal ∧
      DifferByZero (World.print {}) (.decimal ⟨1, -3⟩) (.decimal ⟨100000, 2⟩) ∧
      ¬ eq.Holds (World.print {}) (.decimal ⟨1, -3⟩) (.decimal ⟨100000, 2⟩) ∧
      ∃ v, sub.evaluate (World.print {}) (.decimal ⟨1, -3⟩) (.decimal ⟨100001, 2⟩) = .ok v ∧
        v.IsNegative := by
  have horder : OrdersKind (World.print {}) .decimal := comparisons_order _ rfl
  have hle : lessEq.Holds (World.print {}) (.decimal ⟨1, -3⟩) (.decimal ⟨100000, 2⟩) ∧
      lessEq.Holds (World.print {}) (.decimal ⟨100000, 2⟩) (.decimal ⟨1, -3⟩) := ⟨rfl, rfl⟩
  have hless : less.Holds (World.print {}) (.decimal ⟨1, -3⟩) (.decimal ⟨100001, 2⟩) := rfl
  exact ⟨rfl, horder, (horder.antisymm_decimal rfl rfl rfl).mp hle, by rw [eq_holds_iff]; decide,
    (horder.less_iff (.inr rfl) rfl rfl).mp hless⟩

end Operator

end ObjectLang
