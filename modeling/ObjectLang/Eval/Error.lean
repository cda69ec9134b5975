import ObjectLang.Diagnostic
import ObjectLang.Value.Basic

/-!
# Failures of the evaluator

A run stops early for one of the causes below. Running out of the bound that makes evaluation a
total function is kept apart from them, as `Stop.outOfFuel`: the entry points of the evaluator
supply a bound that is always large enough.
-/

namespace ObjectLang

/-- Why a program fails. -/
inductive EvalError where
  | alreadyDefined (name : String)
  | undefinedName (name : String)
  | undefinedMember (name : String)
  | duplicateParameter (name : String)
  | wrongArgumentCount (name : String) (expected found : Nat)
  | notCallable (name : String) (found : Kind)
  | notAnObject (found : Kind)
  | typeMismatch (expected found : Kind)
  | invalidOperands (op : Operator) (left right : Kind)
  | divisionByZero
  /-- The target of an assignment is neither a variable nor a member. -/
  | invalidAssignmentTarget
  | returnOutsideFunction
  /-- More steps were taken than the limit allows. -/
  | gasExhausted (limit : Nat)
  | callDepthExceeded (limit : Nat)
  | hostFailure (name message : String)
deriving DecidableEq, Repr, Inhabited

namespace EvalError

def code : EvalError → ErrorCode
  | .alreadyDefined _ => .alreadyDefined
  | .undefinedName _ => .undefinedName
  | .undefinedMember _ => .undefinedMember
  | .duplicateParameter _ => .duplicateParameter
  | .wrongArgumentCount _ _ _ => .wrongArgumentCount
  | .notCallable _ _ => .notCallable
  | .notAnObject _ => .notAnObject
  | .typeMismatch _ _ => .typeMismatch
  | .invalidOperands _ _ _ => .typeMismatch
  | .divisionByZero => .divisionByZero
  | .invalidAssignmentTarget => .invalidAssignmentTarget
  | .returnOutsideFunction => .returnOutsideFunction
  | .gasExhausted _ => .gasExhausted
  | .callDepthExceeded _ => .callDepthExceeded
  | .hostFailure _ _ => .hostFailure

def message : EvalError → String
  | .alreadyDefined name => s!"`{name}` is already defined in this scope"
  | .undefinedName name => s!"undefined name `{name}`"
  | .undefinedMember name => s!"object has no member `{name}`"
  | .duplicateParameter name => s!"duplicate parameter `{name}`"
  | .wrongArgumentCount name expected found =>
    s!"`{name}` expects {expected} argument(s), found {found}"
  | .notCallable name found => s!"`{name}` is not a function, found {found.text}"
  | .notAnObject found => s!"expected an object, found {found.text}"
  | .typeMismatch expected found => s!"expected {expected.text}, found {found.text}"
  | .invalidOperands op left right =>
    s!"`{op.spelling}` cannot be applied to {left.text} and {right.text}"
  | .divisionByZero => "division by zero"
  | .invalidAssignmentTarget => "only variables and properties can be assigned"
  | .returnOutsideFunction => "RETURN outside of a function"
  | .gasExhausted limit => s!"gas exhausted after {limit} steps"
  | .callDepthExceeded limit => s!"call depth exceeded {limit}"
  | .hostFailure name message => s!"{name}: {message}"

def toDiagnostic (e : EvalError) : Diagnostic := .ofCode e.code e.message

end EvalError

/-- Why a run ends without a value. -/
inductive Stop where
  | error (e : EvalError)
  /-- The bound on nested calls is used up. -/
  | outOfFuel
deriving DecidableEq, Repr, Inhabited

end ObjectLang
