import ObjectLang.Eval.Tree
import ObjectLang.Proofs.Value.Admission

/-!
# Operators on values of abstract types

The checker accepts an operation by the types of its operands. These may be abstract, so that the
kinds of the two values are not known. The main statement says what accepted operations do all the
same: they keep to the type of the result or divide by zero. The one exception are two operands of
type `Comparable` that turn out to be of different kinds; these have no order. -/

namespace ObjectLang

namespace Eval

variable {invoke : Invoke} {c : Context} {op : Operator} {left right : Expr} {a b : Value}

/-- In a run, an operation on two values is `Operator.evaluate`. The right operand is left out if the
left one decides. -/
theorem expr_binary_run {w w₀ w₁ w₂ : World} (htick : tick c.meter w = .ok () w₀)
    (hleft : expr invoke c left w₀ = .ok a w₁) (hright : expr invoke c right w₁ = .ok b w₂) :
    ∃ w' ∈ [w₁, w₂],
      expr invoke c (.binary op left right) w = result (op.evaluate w₂.print a b) w' := by
  rw [expr, bind_run_ok htick, bind_run_ok hleft]
  cases hdecided : op.decidedBy a with
  | error e => exact ⟨w₁, by simp, by rw [Operator.evaluate, hdecided]; rfl⟩
  | ok decided =>
    cases decided with
    | some v => exact ⟨w₁, by simp, by rw [Operator.evaluate, hdecided]; rfl⟩
    | none =>
      refine ⟨w₂, by simp, ?_⟩
      change (expr invoke c right >>= _) w₁ = _
      rw [bind_run_ok hright, Operator.evaluate, hdecided]
      rfl

end Eval

namespace Operator

/-- An ordering of two values of different kinds, of which only `Comparable` is known. -/
def Mixes (op : Operator) (left : Ty) (a b : Value) : Prop :=
  op.isOrdering = true ∧ left = .comparable ∧ a.kind ≠ b.kind

variable {op : Operator} {left right ty : Ty} {a b : Value}

/-- An ordering is a test, and fails on values of different kinds only. -/
theorem evaluate_ordering (hop : op.isOrdering = true) (h : op.resultTy left right = .ok ty)
    (ha : left.admits a.kind = true) (hb : right.admits b.kind = true) (print : Value → String) :
    (¬ op.Mixes left a b → Gives ty (op.evaluate print a b)) ∧
      (op.Mixes left a b →
        op.evaluate print a b = .error (.invalidOperands op a.kind b.kind)) := by
  obtain ⟨rfl, rfl, hconcrete | rfl⟩ := operands_of_isOrdering hop h
  · refine ⟨fun _ => gives_evaluate_of_isConcrete hconcrete hconcrete h ha hb, ?_⟩
    rintro ⟨-, rfl, -⟩
    cases hconcrete
  · obtain ⟨test, htest⟩ := evaluate_of_isOrdering print hop
    rw [htest]
    by_cases hkind : a.kind = b.kind
    · obtain ⟨x, hx⟩ := ordering_of_isSome op test
        ((isSome_order?_iff ha hb).mpr hkind)
      exact ⟨fun _ => .inl ⟨.boolean x, hx, rfl⟩, fun hmixes => absurd hkind hmixes.2.2⟩
    · have hnone := mt (isSome_order?_iff ha hb).mp hkind
      exact ⟨fun hmixes => absurd ⟨hop, rfl, hkind⟩ hmixes, fun _ => ordering_of_not_isSome hnone⟩

/-- An accepted operation on values that the types of the operands admit gives a value that the type
of the result admits, or divides by zero, unless it orders values of different kinds. -/
theorem evaluate_sound (h : op.resultTy left right = .ok ty) (ha : left.admits a.kind = true)
    (hb : right.admits b.kind = true) (print : Value → String) :
    (¬ op.Mixes left a b → Gives ty (op.evaluate print a b)) ∧
      (op.Mixes left a b →
        op.evaluate print a b = .error (.invalidOperands op a.kind b.kind)) := by
  by_cases hop : op.isOrdering = true
  · exact evaluate_ordering hop h ha hb print
  · exact ⟨fun _ => gives_evaluate hop h ha hb, fun hmixes => absurd hmixes.1 hop⟩

/-- Two texts of which only `Comparable` is known. -/
theorem evaluate_sound_texts :
    less.resultTy .comparable .comparable = .ok .boolean ∧
      Ty.admits .comparable (Value.string "a").kind = true ∧
      Ty.admits .comparable (Value.string "b").kind = true ∧
      ¬ less.Mixes .comparable (.string "a") (.string "b") ∧
      Gives .boolean (less.evaluate (World.print {}) (.string "a") (.string "b")) := by
  have hrule : less.resultTy .comparable .comparable = .ok .boolean := rfl
  have hmixes : ¬ less.Mixes .comparable (.string "a") (.string "b") := fun h => h.2.2 rfl
  exact ⟨hrule, rfl, rfl, hmixes, (evaluate_sound hrule rfl rfl _).1 hmixes⟩

/-- A truth value and a number are both `Comparable`, but they have no order. -/
theorem evaluate_less_of_kinds :
    less.resultTy .comparable .comparable = .ok .boolean ∧
      Ty.admits .comparable (Value.boolean true).kind = true ∧
      Ty.admits .comparable (Value.integer 1).kind = true ∧
      less.evaluate (World.print {}) (.boolean true) (.integer 1) =
        .error (.invalidOperands .less .boolean .integer) ∧
      ¬ Gives .boolean (less.evaluate (World.print {}) (.boolean true) (.integer 1)) := by
  refine ⟨rfl, rfl, rfl, rfl, ?_⟩
  rintro (⟨v, hv, -⟩ | hzero)
  · cases hv
  · cases hzero

end Operator

end ObjectLang
