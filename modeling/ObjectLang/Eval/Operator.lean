import ObjectLang.Decimal.Division
import ObjectLang.Eval.Error

/-!
# Operators on values

Conjunction and disjunction look at the left operand first and may be decided by it; all other
operators need both operands. Arithmetic and orderings take two operands of one kind, addition
also concatenates texts, and any two values can be compared for equality.
-/

namespace ObjectLang

/-- The truth value, which the value has to be. -/
def Value.truth : Value → Except EvalError Bool
  | .boolean value => .ok value
  | v => .error (.typeMismatch .boolean v.kind)

namespace Operator

/-- The result if the left operand alone decides it. -/
def decidedBy (op : Operator) (left : Value) : Except EvalError (Option Value) :=
  match op with
  | .and => do return if ← left.truth then none else some (.boolean false)
  | .or => do return if ← left.truth then some (.boolean true) else none
  | _ => return none

/-- Arithmetic on two numbers of one kind. Division of whole numbers drops the fraction. -/
def arithmetic (op : Operator) (left right : Value) : Except EvalError Value :=
  match left, right, op with
  | .integer a, .integer b, .add => .ok (.integer (a + b))
  | .integer a, .integer b, .sub => .ok (.integer (a - b))
  | .integer a, .integer b, .mul => .ok (.integer (a * b))
  | .integer a, .integer b, .div =>
    if b = 0 then .error .divisionByZero else .ok (.integer (a.tdiv b))
  | .decimal a, .decimal b, .add => .ok (.decimal (a.add b))
  | .decimal a, .decimal b, .sub => .ok (.decimal (a.sub b))
  | .decimal a, .decimal b, .mul => .ok (.decimal (a.mul b))
  | .decimal a, .decimal b, .div =>
    if b.isZero then .error .divisionByZero else .ok (.decimal (a.divide b))
  | _, _, _ => .error (.invalidOperands op left.kind right.kind)

/-- The order of two truth values, numbers of one kind, or texts. -/
def order? (left right : Value) : Option Ordering :=
  match left, right with
  | .boolean a, .boolean b => some (compare a b)
  | .integer a, .integer b => some (compare a b)
  | .decimal a, .decimal b => some (a.compare b)
  | .string a, .string b => some (compare a b)
  | _, _ => none

/-- Whether two operands in the given order satisfy `test`. -/
def ordering (op : Operator) (test : Ordering → Bool) (left right : Value) :
    Except EvalError Value :=
  match order? left right with
  | some o => .ok (.boolean (test o))
  | none => .error (.invalidOperands op left.kind right.kind)

/-- Addition: concatenation if one of the operands is a text, a sum otherwise. -/
def addition (print : Value → String) (left right : Value) : Except EvalError Value :=
  if left.kind = .string ∨ right.kind = .string then .ok (.string (print left ++ print right))
  else arithmetic .add left right

/-- The result when the left operand has not decided it. -/
def apply (print : Value → String) (op : Operator) (left right : Value) :
    Except EvalError Value :=
  match op with
  | .add => addition print left right
  | .sub | .mul | .div => op.arithmetic left right
  | .less => op.ordering Ordering.isLT left right
  | .lessEq => op.ordering Ordering.isLE left right
  | .greater => op.ordering Ordering.isGT left right
  | .greaterEq => op.ordering Ordering.isGE left right
  | .eq => .ok (.boolean (left.same right))
  | .notEq => .ok (.boolean (!left.same right))
  | .and | .or => do return .boolean (← right.truth)

end Operator

end ObjectLang
