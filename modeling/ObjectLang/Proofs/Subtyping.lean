import ObjectLang.Proofs.TypeSystem.Lookup
import ObjectLang.Proofs.TypeSystem.Steps

/-!
# Subtypes are ordered

Equality of types looks into function types and compares object types by their frames, and the
subtype relation is a table on top of it. Together they make a partial order of all types, with
`Any` above everything. The order is flat on function types and object types: these are related to
themselves and to `Any` alone, whatever their parts.
-/

namespace ObjectLang.Ty

variable {t u v : Ty}

/-! ## The rules -/

/-- Nothing but `Any` is above `Any`. -/
theorem Below.eq_any (h : Ty.any.Below u) : u = .any := by
  cases h with
  | refl => rfl
  | any => rfl
  | comparable ht => simp at ht
  | equatable ht => simp at ht

/-- What is above `Comparable` is above all that is below it. -/
theorem Below.of_comparable (ht : t ∈ [boolean, integer, decimal, string])
    (h : Ty.comparable.Below u) : t.Below u := by
  cases h with
  | refl => exact .comparable ht
  | any => exact .any t
  | comparable hmem => simp at hmem
  | equatable _ =>
    refine .equatable ?_
    simp only [List.mem_cons, List.not_mem_nil, or_false] at ht ⊢
    rcases ht with rfl | rfl | rfl | rfl <;> simp

/-- Above `Equatable` there is `Any` only. -/
theorem Below.of_equatable (h : Ty.equatable.Below u) : u = .equatable ∨ u = .any := by
  cases h with
  | refl => exact .inl rfl
  | any => exact .inr rfl
  | comparable hmem => simp at hmem
  | equatable hmem => simp at hmem

theorem Below.trans (h : t.Below u) (h' : u.Below v) : t.Below v := by
  cases h with
  | refl => exact h'
  | any => exact h'.eq_any ▸ .any t
  | comparable ht => exact h'.of_comparable ht
  | equatable ht =>
    rcases h'.of_equatable with rfl | rfl
    · exact .equatable ht
    · exact .any t

theorem Below.antisymm (h : t.Below u) (h' : u.Below t) : t = u := by
  cases h with
  | refl => rfl
  | any => exact h'.eq_any
  | comparable ht =>
    -- the types below `Comparable` have nothing but themselves below them
    cases h' with
    | refl => rfl
    | any => simp at ht
    | comparable hmem => simp at hmem
    | equatable _ => simp at ht
  | equatable ht =>
    rcases h'.of_equatable with rfl | rfl <;> simp at ht

/-- Function types and object types have nothing below them. -/
theorem Below.eq_of_not_isPlain (h : t.Below u) (hu : ¬ u.IsPlain) : t = u :=
  h.isPlain_or_eq.resolve_left hu

/-- Function types and object types have only `Any` above them. -/
theorem Below.eq_or_eq_any (h : t.Below u) (ht : ¬ t.IsPlain) : u = t ∨ u = .any := by
  cases h with
  | refl => exact .inl rfl
  | any => exact .inr rfl
  | comparable hmem | equatable hmem =>
    cases t with
    | function params returns => simp at hmem
    | object members => simp at hmem
    | _ => exact absurd trivial ht

/-! ## The order -/

/-- Subtypes are ordered, where types that `beq` takes for equal count as one. -/
structure SubtypesOrdered : Prop where
  equivalence : Equivalence fun t u : Ty => t.beq u = true
  refl (t : Ty) : t.subtypeOf t = true
  trans {t u v : Ty} : t.subtypeOf u = true → u.subtypeOf v = true → t.subtypeOf v = true
  antisymm {t u : Ty} : t.subtypeOf u = true → u.subtypeOf t = true → t.beq u = true
  /-- Equal types have the same subtypes and the same supertypes. -/
  congr {t t' u u' : Ty} : t.beq t' = true → u.beq u' = true → t.subtypeOf u = t'.subtypeOf u'
  /-- Above every type there is `Any` and no other. -/
  above_all_iff {u : Ty} : (∀ t : Ty, t.subtypeOf u = true) ↔ u.beq .any = true
  isComparable_iff {t : Ty} : t.isComparable = true ↔ t.subtypeOf .comparable = true
  isEquatable_iff {t : Ty} : t.isEquatable = true ↔ t.subtypeOf .equatable = true
  /-- A function type or an object type has no subtype but itself. -/
  subtype_iff {t u : Ty} : ¬ u.IsPlain → (t.subtypeOf u = true ↔ t.beq u = true)
  /-- A function type or an object type has no supertype but itself and `Any`. -/
  supertype_iff {t u : Ty} : ¬ t.IsPlain →
    (t.subtypeOf u = true ↔ u.beq t = true ∨ u.beq .any = true)

theorem isComparable_iff_below : t.isComparable = true ↔ t.Below .comparable := by
  rw [← subtypeOf_iff_below]
  cases t <;> simp [isComparable, subtypeOf]

theorem isEquatable_iff_below : t.isEquatable = true ↔ t.Below .equatable := by
  rw [← subtypeOf_iff_below]
  cases t <;> simp [isEquatable, isComparable, subtypeOf]

/-- The subtype relation is a partial order of all types, with `Any` at the top, in which function
types and object types stand apart. -/
theorem subtypes_ordered : SubtypesOrdered where
  equivalence := by
    simp only [beq_iff_eq]
    exact eq_equivalence
  refl t := subtypeOf_iff_below.mpr (.refl t)
  trans h h' := by
    rw [subtypeOf_iff_below] at h h' ⊢
    exact h.trans h'
  antisymm h h' := by
    rw [subtypeOf_iff_below] at h h'
    exact (beq_iff_eq _ _).mpr (h.antisymm h')
  congr ht hu := by
    rw [(beq_iff_eq _ _).mp ht, (beq_iff_eq _ _).mp hu]
  above_all_iff {u} := by
    simp only [subtypeOf_iff_below, beq_iff_eq]
    constructor
    · intro h
      exact (h .any).eq_any
    · rintro rfl t
      exact .any t
  isComparable_iff {t} := by rw [subtypeOf_iff_below, isComparable_iff_below]
  isEquatable_iff {t} := by rw [subtypeOf_iff_below, isEquatable_iff_below]
  subtype_iff {t u} hu := by
    rw [subtypeOf_iff_below, beq_iff_eq]
    constructor
    · intro h
      exact h.eq_of_not_isPlain hu
    · rintro rfl
      exact .refl t
  supertype_iff {t u} ht := by
    rw [subtypeOf_iff_below, beq_iff_eq, beq_iff_eq]
    constructor
    · intro h
      exact h.eq_or_eq_any ht
    · rintro (rfl | rfl)
      · exact .refl u
      · exact .any t

/-- Function types are not related through their parts. -/
example : integer.subtypeOf any = true ∧
    (function [any] integer).subtypeOf (function [integer] any) = false := by decide

end ObjectLang.Ty
