import ObjectLang.Proofs.Value.Admission

/-!
# Equality of values

Equality looks at the reference of a function or an object and at the content of everything else.
The name of an object is not compared. Two values are equal if nothing is left to tell them apart
when the names of their objects are taken off, and so equality is an equivalence. -/

namespace ObjectLang

namespace Value

mutual

/-- The value without the names of objects. -/
def unnamed : Value → Value
  | .list items => .list (unnamedAll items)
  | .object _ members => .object none members
  | v => v

/-- The values without the names of objects. -/
def unnamedAll : List Value → List Value
  | [] => []
  | v :: rest => v.unnamed :: unnamedAll rest

end

theorem kind_unnamed (v : Value) : v.unnamed.kind = v.kind := by
  cases v with
  | list items => rw [unnamed]; rfl
  | object name members => rw [unnamed]; rfl
  | _ => rw [unnamed] <;> simp

mutual

/-- Names of objects are all that equality leaves out. -/
theorem same_iff_unnamed : ∀ a b : Value, a.same b = true ↔ a.unnamed = b.unnamed
  | .list as, b => by
    cases b with
    | list bs =>
      rw [same, unnamed, unnamed, sameList_iff_unnamed as bs, Value.list.injEq]
    | _ => simp [same, unnamed]
  | .nil, b => by cases b <;> simp [same, unnamed]
  | .boolean x, b => by cases b <;> simp [same, unnamed]
  | .integer x, b => by cases b <;> simp [same, unnamed]
  | .decimal x, b => by cases b <;> simp [same, unnamed]
  | .string x, b => by cases b <;> simp [same, unnamed]
  | .function x, b => by cases b <;> simp [same, unnamed]
  | .object _ x, b => by cases b <;> simp [same, unnamed]

theorem sameList_iff_unnamed : ∀ as bs : List Value,
    sameList as bs = true ↔ unnamedAll as = unnamedAll bs
  | [], bs => by cases bs <;> simp [sameList, unnamedAll]
  | a :: as, bs => by
    cases bs with
    | nil => simp [sameList, unnamedAll]
    | cons b bs =>
      rw [sameList, unnamedAll, unnamedAll, Bool.and_eq_true, same_iff_unnamed a b,
        sameList_iff_unnamed as bs, List.cons.injEq]

end

/-- Equality is an equivalence. -/
theorem same_equivalence : Equivalence fun a b : Value => a.same b = true where
  refl a := (same_iff_unnamed a a).mpr rfl
  symm h := (same_iff_unnamed _ _).mpr ((same_iff_unnamed _ _).mp h).symm
  trans h h' := (same_iff_unnamed _ _).mpr
    (((same_iff_unnamed _ _).mp h).trans ((same_iff_unnamed _ _).mp h'))

theorem kind_eq_of_same {a b : Value} (h : a.same b = true) : a.kind = b.kind := by
  rw [← kind_unnamed a, ← kind_unnamed b, (same_iff_unnamed a b).mp h]

theorem same_function_iff {id : FunctionId} {v : Value} :
    (Value.function id).same v = true ↔ v = .function id := by
  cases v with
  | function id' =>
    rw [same, beq_iff_eq, Value.function.injEq]
    exact eq_comm
  | _ => simp [same]

theorem same_object_iff {name : Option String} {members : FrameId} {v : Value} :
    (Value.object name members).same v = true ↔ ∃ name', v = .object name' members := by
  cases v with
  | object name' members' =>
    rw [same, beq_iff_eq]
    constructor
    · rintro rfl
      exact ⟨name', rfl⟩
    · rintro ⟨_, heq⟩
      exact (Value.object.inj heq).2.symm
  | _ => simp [same]

end Value

namespace Operator

/-- The operator makes the truth value `true` of the two values. -/
def Holds (op : Operator) (print : Value → String) (a b : Value) : Prop :=
  op.evaluate print a b = .ok (.boolean true)

variable {print : Value → String} {a b : Value}

theorem eq_holds_iff : eq.Holds print a b ↔ a.same b = true := by
  have heq : eq.evaluate print a b = .ok (.boolean (a.same b)) := rfl
  rw [Holds, heq]
  simp

end Operator

end ObjectLang
