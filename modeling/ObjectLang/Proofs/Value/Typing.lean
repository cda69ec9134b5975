import ObjectLang.Eval.Operator
import ObjectLang.Eval.World
import ObjectLang.Proofs.Check.Accepted

/-!
# Values of a type

`Value.Conforms` says of a value alone that it is one of a type. A function value is a number, so
`Value.Fits` also looks at the table of functions: the number has to stand for a host function of
just that type. No value fits a type that only collects other types.

An operator that the checker accepts takes values that fit the types of its operands to a value that
fits the type of the result, except that it may divide by zero.
-/

namespace ObjectLang

/-- The type collects what can be ordered or compared. -/
def Ty.IsAbstract : Ty → Prop
  | .comparable | .equatable => True
  | _ => False

/-- The value is one of the type. -/
def Value.Conforms (v : Value) : Ty → Prop
  | .any => True
  | .nil => v.kind = .nil
  | .boolean => v.kind = .boolean
  | .integer => v.kind = .integer
  | .decimal => v.kind = .decimal
  | .string => v.kind = .string
  | .iterable => ∃ items : List Int, v = .list (items.map .integer)
  | .function _ _ => v.kind = .function
  | .comparable | .equatable | .object _ => False

/-- The type of a host function that every program can use. -/
def HostFunction.ty? : HostFunction → Option Ty
  | .print => some (.function [.any] .nil)
  | .log => some (.function [.any] .any)
  | .range => some (.function [.integer, .integer] .iterable)
  | _ => none

/-- The value is one of the type, and if it is a function, then a host function of that type. -/
def Value.Fits (functions : Array Function) (v : Value) : Ty → Prop
  | .function params returns => ∃ id f, v = .function id ∧
      (functions.getD id default).code = .host f ∧ f.ty? = some (.function params returns)
  | ty => v.Conforms ty

variable {functions : Array Function} {v : Value} {ty : Ty}

theorem Value.Fits.conforms (h : v.Fits functions ty) : v.Conforms ty := by
  cases ty with
  | function params returns =>
    obtain ⟨id, f, rfl, -, -⟩ := h
    rfl
  | _ => exact h

theorem Value.Fits.not_isAbstract (h : v.Fits functions ty) : ¬ ty.IsAbstract := by
  cases ty with
  | comparable | equatable => exact absurd h id
  | _ => exact id

/-- A constant fits its type. -/
theorem Literal.fits (functions : Array Function) (value : Literal) :
    value.value.Fits functions value.ty := by
  cases value <;> rfl

/-- What fits a type fits every type above it that some value fits. -/
theorem Value.Fits.subtype {target : Ty} (h : v.Fits functions ty)
    (hsub : ty.subtypeOf target = true) (htarget : ¬ target.IsAbstract) :
    v.Fits functions target := by
  by_cases heq : ty = target
  · exact heq ▸ h
  · have hne : (ty == target) = false := by simpa using heq
    unfold Ty.subtypeOf at hsub
    rw [hne, Bool.false_or] at hsub
    cases target with
    | any => trivial
    | comparable | equatable => exact absurd trivial htarget
    | _ => cases hsub

/-! ## Values of a kind -/

namespace Value

theorem eq_boolean_of_kind (h : v.kind = .boolean) : ∃ b, v = .boolean b := by
  cases v with
  | boolean b => exact ⟨b, rfl⟩
  | _ => cases h

theorem eq_integer_of_kind (h : v.kind = .integer) : ∃ n, v = .integer n := by
  cases v with
  | integer n => exact ⟨n, rfl⟩
  | _ => cases h

theorem eq_decimal_of_kind (h : v.kind = .decimal) : ∃ d, v = .decimal d := by
  cases v with
  | decimal d => exact ⟨d, rfl⟩
  | _ => cases h

theorem eq_string_of_kind (h : v.kind = .string) : ∃ s, v = .string s := by
  cases v with
  | string s => exact ⟨s, rfl⟩
  | _ => cases h

end Value

/-! ## Operators -/

/-- The rule gives a value that fits the type, or divides by zero. -/
def Delivers (functions : Array Function) (ty : Ty) : Except EvalError Value → Prop
  | .ok v => v.Fits functions ty
  | .error e => e = .divisionByZero

namespace Operator

variable {op : Operator} {left right : Ty} {a b : Value}

/-- Arithmetic on two numbers of a type gives a number of that type. -/
theorem delivers_arithmetic (hop : op ∈ [add, sub, mul, div])
    (h : op.arithmeticTy left right = .ok ty) (ha : a.Fits functions left)
    (hb : b.Fits functions right) : Delivers functions ty (op.arithmetic a b) := by
  obtain ⟨hnumeric, rfl, rfl⟩ := arithmeticTy_eq_ok h
  simp only [List.mem_cons, List.not_mem_nil, or_false] at hop
  cases ty with
  | integer =>
    obtain ⟨m, rfl⟩ := Value.eq_integer_of_kind ha
    obtain ⟨n, rfl⟩ := Value.eq_integer_of_kind hb
    rcases hop with rfl | rfl | rfl | rfl
    · rfl
    · rfl
    · rfl
    · by_cases hn : n = 0
      · rw [arithmetic, if_pos hn]
        rfl
      · rw [arithmetic, if_neg hn]
        rfl
  | decimal =>
    obtain ⟨m, rfl⟩ := Value.eq_decimal_of_kind ha
    obtain ⟨n, rfl⟩ := Value.eq_decimal_of_kind hb
    rcases hop with rfl | rfl | rfl | rfl
    · rfl
    · rfl
    · rfl
    · by_cases hn : n.isZero = true
      · rw [arithmetic, if_pos hn]
        rfl
      · rw [arithmetic, if_neg hn]
        rfl
  | _ => cases hnumeric

/-- Addition of a text and anything is a text, all other additions are arithmetic. -/
theorem delivers_addition {print : Value → String} (h : add.resultTy left right = .ok ty)
    (ha : a.Fits functions left) (hb : b.Fits functions right) :
    Delivers functions ty (addition print a b) := by
  rw [addition]
  by_cases hstring : left = .string ∨ right = .string
  · have hty : ty = .string := by
      rw [resultTy, if_pos hstring] at h
      cases h
      rfl
    have hkind : a.kind = .string ∨ b.kind = .string := by
      rcases hstring with rfl | rfl
      · exact .inl ha
      · exact .inr hb
    rw [if_pos hkind, hty]
    rfl
  · rw [resultTy, if_neg hstring] at h
    obtain ⟨hnumeric, rfl, rfl⟩ := arithmeticTy_eq_ok h
    have hkind : ¬ (a.kind = .string ∨ b.kind = .string) := by
      cases ty with
      | integer => rw [show a.kind = .integer from ha, show b.kind = .integer from hb]; simp
      | decimal => rw [show a.kind = .decimal from ha, show b.kind = .decimal from hb]; simp
      | _ => cases hnumeric
    rw [if_neg hkind]
    exact delivers_arithmetic (by simp) h ha hb

/-- Values of one type that can be ordered have an order. -/
theorem order?_of_fits (hsub : left.subtypeOf .comparable = true) (ha : a.Fits functions left)
    (hb : b.Fits functions left) : ∃ o, order? a b = some o := by
  cases left with
  | boolean =>
    obtain ⟨x, rfl⟩ := Value.eq_boolean_of_kind ha
    obtain ⟨y, rfl⟩ := Value.eq_boolean_of_kind hb
    exact ⟨_, rfl⟩
  | integer =>
    obtain ⟨x, rfl⟩ := Value.eq_integer_of_kind ha
    obtain ⟨y, rfl⟩ := Value.eq_integer_of_kind hb
    exact ⟨_, rfl⟩
  | decimal =>
    obtain ⟨x, rfl⟩ := Value.eq_decimal_of_kind ha
    obtain ⟨y, rfl⟩ := Value.eq_decimal_of_kind hb
    exact ⟨_, rfl⟩
  | string =>
    obtain ⟨x, rfl⟩ := Value.eq_string_of_kind ha
    obtain ⟨y, rfl⟩ := Value.eq_string_of_kind hb
    exact ⟨_, rfl⟩
  | comparable => exact absurd ha id
  | _ => cases hsub

/-- An ordering tests the order of its operands. -/
theorem delivers_ordering {test : Ordering → Bool}
    (h : (do left.requireSubtype .comparable; left.requireSame right; return .boolean) =
      (.ok ty : Except CheckError Ty))
    (ha : a.Fits functions left) (hb : b.Fits functions right) :
    Delivers functions ty (op.ordering test a b) := by
  obtain ⟨_, hsub, hrest⟩ := except_bind_eq_ok h
  obtain ⟨_, hsame, hty⟩ := except_bind_eq_ok hrest
  cases hty
  cases Ty.requireSame_eq_ok hsame
  obtain ⟨o, ho⟩ := order?_of_fits (Ty.requireSubtype_eq_ok hsub) ha hb
  rw [ordering, ho]
  rfl

/-- The left operand can be asked whether it decides the result. -/
theorem decidedBy_of_fits (h : op.resultTy left right = .ok ty) (ha : a.Fits functions left) :
    ∃ r, op.decidedBy a = .ok r ∧ ∀ v, r = some v → v.Fits functions ty := by
  by_cases hop : op = and ∨ op = or
  · obtain ⟨rfl, -, rfl⟩ := boolean_of_logical hop h
    obtain ⟨x, rfl⟩ := Value.eq_boolean_of_kind ha
    rcases hop with rfl | rfl
    · cases x with
      | true => exact ⟨none, rfl, fun v hv => by cases hv⟩
      | false => exact ⟨some (.boolean false), rfl, fun v hv => by cases hv; rfl⟩
    · cases x with
      | true => exact ⟨some (.boolean true), rfl, fun v hv => by cases hv; rfl⟩
      | false => exact ⟨none, rfl, fun v hv => by cases hv⟩
  · refine ⟨none, ?_, fun v hv => by cases hv⟩
    cases op with
    | and | or => simp at hop
    | _ => rfl

/-- An accepted operation gives a value of its type, or divides by zero. -/
theorem delivers_apply {print : Value → String} (h : op.resultTy left right = .ok ty)
    (ha : a.Fits functions left) (hb : b.Fits functions right) :
    Delivers functions ty (op.apply print a b) := by
  cases op with
  | add => exact delivers_addition h ha hb
  | sub | mul | div => exact delivers_arithmetic (by simp) h ha hb
  | less | lessEq | greater | greaterEq => exact delivers_ordering h ha hb
  | eq | notEq =>
    obtain ⟨_, -, hrest⟩ := except_bind_eq_ok h
    obtain ⟨_, -, hty⟩ := except_bind_eq_ok hrest
    cases hty
    rfl
  | and | or =>
    obtain ⟨rfl, rfl, rfl⟩ := boolean_of_logical (by simp) h
    obtain ⟨y, rfl⟩ := Value.eq_boolean_of_kind hb
    rfl

end Operator

end ObjectLang
