import ObjectLang.Proofs.Value.Typing

/-!
# Kinds of values and abstract types

A type admits values of certain kinds. A concrete type admits one kind only; a type that collects
other types admits the kinds of all of them, so it does not determine the kind of a value.

On concrete types this is the same as to fit the type, and a type admits whatever a type below it
admits.
-/

namespace ObjectLang

/-- Whether values of the kind have an order. -/
def Kind.isOrdered : Kind → Bool
  | .boolean | .integer | .decimal | .string => true
  | _ => false

/-- Whether a value of the kind may stand where one of the type is wanted. -/
def Ty.admits : Ty → Kind → Bool
  | .any, _ => true
  | .nil, k => k = .nil
  | .boolean, k => k = .boolean
  | .integer, k => k = .integer
  | .decimal, k => k = .decimal
  | .string, k => k = .string
  | .comparable, k => k.isOrdered
  | .equatable, k => k = .nil || k = .list || k.isOrdered
  | .iterable, k => k = .list
  | .function _ _, k => k = .function
  | .object _, k => k = .object

/-- The type is that of the values of one kind, and these have no parts. -/
def Ty.isConcrete : Ty → Bool
  | .nil | .boolean | .integer | .decimal | .string => true
  | _ => false

namespace Ty

variable {functions : Array Function} {v : Value} {ty : Ty}

theorem isConcrete_of_isNumeric (h : ty.isNumeric = true) : ty.isConcrete = true := by
  cases ty <;> first | rfl | cases h

/-- What a type admits is admitted by every type above it. -/
theorem admits_of_subtypeOf {target : Ty} {k : Kind} (h : ty.admits k = true)
    (hsub : ty.subtypeOf target = true) : target.admits k = true := by
  by_cases heq : ty = target
  · exact heq ▸ h
  · have hne : (ty == target) = false := by simpa using heq
    unfold subtypeOf at hsub
    rw [hne, Bool.false_or] at hsub
    cases target with
    | any => rfl
    | comparable =>
      cases ty with
      | boolean | integer | decimal | string =>
        cases of_decide_eq_true h
        rfl
      | comparable => exact h
      | _ => cases hsub
    | equatable =>
      cases ty with
      | nil | boolean | integer | decimal | string | iterable =>
        cases of_decide_eq_true h
        rfl
      | comparable => simp [admits, show k.isOrdered = true from h]
      | equatable => exact h
      | _ => cases hsub
    | _ => cases hsub

/-- A value fits a concrete type if the type admits it. -/
theorem fits_of_admits (hty : ty.isConcrete = true) (h : ty.admits v.kind = true) :
    v.Fits functions ty := by
  cases ty with
  | nil | boolean | integer | decimal | string => exact show v.kind = _ from of_decide_eq_true h
  | _ => cases hty

/-- A type admits what fits it. -/
theorem admits_of_fits (h : v.Fits functions ty) : ty.admits v.kind = true := by
  cases ty with
  | any => rfl
  | nil | boolean | integer | decimal | string => exact decide_eq_true h
  | iterable =>
    obtain ⟨items, rfl⟩ := h
    rfl
  | function params returns =>
    obtain ⟨id, f, rfl, -, -⟩ := h
    rfl
  | comparable | equatable | object _ => exact absurd h id

/-- A type that can be ordered is concrete, or collects all of these. -/
theorem isConcrete_or_eq_comparable (h : ty.subtypeOf .comparable = true) :
    ty.isConcrete = true ∨ ty = .comparable := by
  cases ty with
  | boolean | integer | decimal | string => exact .inl rfl
  | comparable => exact .inr rfl
  | _ => cases h

end Ty

/-! ## Operators -/

/-- The operation is one of the four tests of an order. -/
def Operator.isOrdering : Operator → Bool
  | .less | .lessEq | .greater | .greaterEq => true
  | _ => false

/-- What the operator makes of two values. The right one does not matter if the left one decides. -/
def Operator.evaluate (op : Operator) (print : Value → String) (a b : Value) :
    Except EvalError Value := do
  match ← op.decidedBy a with
  | some v => return v
  | none => op.apply print a b

/-- The rule gives a value that the type admits, or it divides by zero. -/
def Gives (ty : Ty) (r : Except EvalError Value) : Prop :=
  (∃ v, r = .ok v ∧ ty.admits v.kind = true) ∨ r = .error .divisionByZero

theorem Delivers.gives {functions : Array Function} {ty : Ty} {r : Except EvalError Value}
    (h : Delivers functions ty r) : Gives ty r := by
  cases r with
  | ok v => exact .inl ⟨v, rfl, Ty.admits_of_fits h⟩
  | error e => exact .inr (congrArg _ h)

namespace Operator

variable {op : Operator} {left right ty : Ty} {a b : Value} {print : Value → String}

/-- On operands of concrete types an accepted operation keeps to its type. -/
theorem gives_evaluate_of_isConcrete (hleft : left.isConcrete = true)
    (hright : right.isConcrete = true) (h : op.resultTy left right = .ok ty)
    (ha : left.admits a.kind = true) (hb : right.admits b.kind = true) :
    Gives ty (op.evaluate print a b) := by
  have hfitsA : a.Fits #[] left := Ty.fits_of_admits hleft ha
  have hfitsB : b.Fits #[] right := Ty.fits_of_admits hright hb
  obtain ⟨decided, hdecided, hfits⟩ := decidedBy_of_fits h hfitsA
  rw [evaluate, hdecided]
  cases decided with
  | some v => exact .inl ⟨v, rfl, Ty.admits_of_fits (hfits v rfl)⟩
  | none => exact (delivers_apply h hfitsA hfitsB).gives

/-- Arithmetic is accepted on numbers only. -/
theorem gives_evaluate_of_arithmetic (h : op.arithmeticTy left right = .ok ty)
    (hop : op.resultTy left right = .ok ty) (ha : left.admits a.kind = true)
    (hb : right.admits b.kind = true) : Gives ty (op.evaluate print a b) := by
  obtain ⟨hnumeric, rfl, -⟩ := arithmeticTy_eq_ok h
  have hconcrete := Ty.isConcrete_of_isNumeric hnumeric
  exact gives_evaluate_of_isConcrete hconcrete hconcrete hop ha hb

/-- A text can be added to a value of any kind. -/
theorem gives_evaluate_of_text (hstring : left = .string ∨ right = .string)
    (ha : left.admits a.kind = true) (hb : right.admits b.kind = true) :
    Gives .string (add.evaluate print a b) := by
  have hkind : a.kind = .string ∨ b.kind = .string := by
    rcases hstring with rfl | rfl
    · exact .inl (of_decide_eq_true ha)
    · exact .inr (of_decide_eq_true hb)
  refine .inl ⟨.string (print a ++ print b), ?_, rfl⟩
  change addition print a b = _
  rw [addition, if_pos hkind]

/-- Two values whose kinds have an order are ordered just if the kinds are the same. -/
theorem isSome_order?_iff (ha : a.kind.isOrdered = true) (hb : b.kind.isOrdered = true) :
    (order? a b).isSome = true ↔ a.kind = b.kind := by
  cases a with
  | boolean | integer | decimal | string =>
    cases b with
    | boolean | integer | decimal | string => simp [order?, Value.kind]
    | _ => cases hb
  | _ => cases ha

theorem ordering_of_isSome (op : Operator) (test : Ordering → Bool) (h : (order? a b).isSome = true) :
    ∃ x, op.ordering test a b = .ok (.boolean x) := by
  obtain ⟨o, ho⟩ := Option.isSome_iff_exists.mp h
  exact ⟨test o, by rw [ordering, ho]⟩

theorem ordering_of_not_isSome {test : Ordering → Bool} (h : ¬ (order? a b).isSome = true) :
    op.ordering test a b = .error (.invalidOperands op a.kind b.kind) := by
  rw [Option.not_isSome_iff_eq_none] at h
  rw [ordering, h]

/-- What can be ordered has one type on both sides, which is concrete or collects all of these. -/
theorem operands_of_isOrdering (hop : op.isOrdering = true)
    (h : op.resultTy left right = .ok ty) :
    ty = .boolean ∧ right = left ∧ (left.isConcrete = true ∨ left = .comparable) := by
  have hrule : (do left.requireSubtype .comparable; left.requireSame right; return .boolean) =
      (.ok ty : Except CheckError Ty) := by
    cases op <;> first | exact h | cases hop
  obtain ⟨_, hsub, hrest⟩ := except_bind_eq_ok hrule
  obtain ⟨_, hsame, hty⟩ := except_bind_eq_ok hrest
  cases hty
  exact ⟨rfl, Ty.requireSame_eq_ok hsame,
    Ty.isConcrete_or_eq_comparable (Ty.requireSubtype_eq_ok hsub)⟩

/-- An ordering is one test of the order of its operands. -/
theorem evaluate_of_isOrdering (print : Value → String) (hop : op.isOrdering = true) :
    ∃ test, ∀ a b, op.evaluate print a b = op.ordering test a b := by
  cases op with
  | less | lessEq | greater | greaterEq => exact ⟨_, fun _ _ => rfl⟩
  | _ => cases hop

/-- A test for equality looks at any two values. -/
theorem gives_evaluate_of_equality (hop : op = eq ∨ op = notEq)
    (h : op.resultTy left right = .ok ty) : Gives ty (op.evaluate print a b) := by
  have hrule : (do left.requireSubtype .equatable; right.requireSubtype .equatable
                   return .boolean) = (.ok ty : Except CheckError Ty) := by
    rcases hop with rfl | rfl <;> exact h
  obtain ⟨_, -, hrest⟩ := except_bind_eq_ok hrule
  obtain ⟨_, -, hty⟩ := except_bind_eq_ok hrest
  cases hty
  rcases hop with rfl | rfl
  · exact .inl ⟨.boolean (a.same b), rfl, rfl⟩
  · exact .inl ⟨.boolean (!a.same b), rfl, rfl⟩

/-- Every accepted operation but an ordering keeps to its type. -/
theorem gives_evaluate (hop : ¬ op.isOrdering = true) (h : op.resultTy left right = .ok ty)
    (ha : left.admits a.kind = true) (hb : right.admits b.kind = true) :
    Gives ty (op.evaluate print a b) := by
  cases op with
  | add =>
    by_cases hstring : left = .string ∨ right = .string
    · have hty : ty = .string := by
        rw [resultTy, if_pos hstring] at h
        cases h
        rfl
      exact hty ▸ gives_evaluate_of_text hstring ha hb
    · have harith := h
      rw [resultTy, if_neg hstring] at harith
      exact gives_evaluate_of_arithmetic harith h ha hb
  | sub | mul | div => exact gives_evaluate_of_arithmetic h h ha hb
  | less | lessEq | greater | greaterEq => exact absurd rfl hop
  | eq | notEq => exact gives_evaluate_of_equality (by simp) h
  | and | or =>
    obtain ⟨rfl, rfl, -⟩ := boolean_of_logical (by simp) h
    exact gives_evaluate_of_isConcrete rfl rfl h ha hb

/-- What an accepted operation gives is admitted by its type. -/
theorem admits_of_evaluate {v : Value} (h : op.resultTy left right = .ok ty)
    (ha : left.admits a.kind = true) (hb : right.admits b.kind = true)
    (hv : op.evaluate print a b = .ok v) : ty.admits v.kind = true := by
  by_cases hop : op.isOrdering = true
  · obtain ⟨rfl, -, -⟩ := operands_of_isOrdering hop h
    obtain ⟨test, htest⟩ := evaluate_of_isOrdering print hop
    rw [htest, ordering] at hv
    split at hv
    · cases hv
      rfl
    · cases hv
  · have hgives : Gives ty (op.evaluate print a b) := gives_evaluate hop h ha hb
    rcases hgives with ⟨v', hv', hty⟩ | herror
    · cases hv.symm.trans hv'
      exact hty
    · cases hv.symm.trans herror

/-- What the left operand alone decides is a truth value. -/
theorem admits_of_decidedBy {v : Value} (h : op.resultTy left right = .ok ty)
    (hv : op.decidedBy a = .ok (some v)) : ty.admits v.kind = true := by
  have hop : op = and ∨ op = or := by
    cases op with
    | and => exact .inl rfl
    | or => exact .inr rfl
    | _ => cases hv
  obtain ⟨-, -, rfl⟩ := boolean_of_logical hop h
  have hkind : v.kind = .boolean := by
    rcases hop with rfl | rfl
    all_goals
      obtain ⟨x, -, hrest⟩ := except_bind_eq_ok hv
      cases x <;> cases hrest
      rfl
  exact decide_eq_true hkind

end Operator

end ObjectLang
