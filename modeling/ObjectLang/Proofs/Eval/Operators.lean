import ObjectLang.Eval.Operator

/-!
# Failures of operators

An operator fails because of its operands: one of them has the wrong kind, the two do not go
together, or the divisor is zero. -/

namespace ObjectLang

/-- The failures that have to do with the operands of an operator. -/
def EvalError.IsOperand : EvalError → Prop
  | .typeMismatch _ _ | .invalidOperands _ _ _ | .divisionByZero => True
  | _ => False

theorem Value.isOperand_truth {v : Value} {e : EvalError} (h : v.truth = .error e) :
    e.IsOperand := by
  cases v <;> cases h <;> trivial

namespace Operator

variable {op : Operator} {a b : Value} {e : EvalError}

theorem isOperand_decidedBy (h : op.decidedBy a = .error e) : e.IsOperand := by
  cases op with
  | and | or => cases a <;> cases h <;> trivial
  | _ => cases h

theorem isOperand_arithmetic (h : op.arithmetic a b = .error e) : e.IsOperand := by
  unfold arithmetic at h
  split at h <;> try split at h
  all_goals cases h
  all_goals trivial

theorem isOperand_ordering {test : Ordering → Bool} (h : op.ordering test a b = .error e) :
    e.IsOperand := by
  unfold ordering at h
  split at h <;> cases h
  trivial

/-- What is wrong when an operator fails are its operands. -/
theorem isOperand_apply {print : Value → String} (h : op.apply print a b = .error e) :
    e.IsOperand := by
  cases op with
  | add =>
    unfold apply addition at h
    dsimp only at h
    split at h
    · cases h
    · exact isOperand_arithmetic h
  | sub | mul | div => exact isOperand_arithmetic h
  | less | lessEq | greater | greaterEq => exact isOperand_ordering h
  | eq | notEq => cases h
  | and | or => cases b <;> cases h <;> trivial

end Operator

end ObjectLang
