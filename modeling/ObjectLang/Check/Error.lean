import ObjectLang.Diagnostic
import ObjectLang.Program.Basic
import ObjectLang.Ty.Text

/-!
# Failures of the checker

A program is rejected for one of the causes below. The message shows types, and so needs the store
in which the members of object types are kept.
-/

namespace ObjectLang

/-- Why a program is rejected. -/
inductive CheckError where
  | alreadyDefined (name : String)
  | undefinedType (name : String)
  | undefinedName (name : String)
  | undefinedMember (name : String)
  | duplicateParameter (name : String)
  /-- A type is not a subtype of the one that is wanted. -/
  | typeMismatch (expected found : Ty)
  | invalidOperands (op : Operator) (left right : Ty)
  | wrongArgumentCount (name : String) (expected found : Nat)
  | notCallable (name : String) (found : Ty)
  | notAnObject (found : Ty)
  /-- An object bears the name of a predefined type. -/
  | reservedTypeName (name : String)
  /-- The target of an assignment is neither a variable nor a member. -/
  | invalidAssignmentTarget
  | returnOutsideFunction
deriving DecidableEq, Repr, Inhabited

namespace CheckError

def code : CheckError → ErrorCode
  | .alreadyDefined _ => .alreadyDefined
  | .undefinedType _ => .undefinedType
  | .undefinedName _ => .undefinedName
  | .undefinedMember _ => .undefinedMember
  | .duplicateParameter _ => .duplicateParameter
  | .typeMismatch _ _ => .typeMismatch
  | .invalidOperands _ _ _ => .typeMismatch
  | .wrongArgumentCount _ _ _ => .wrongArgumentCount
  | .notCallable _ _ => .notCallable
  | .notAnObject _ => .notAnObject
  | .reservedTypeName _ => .reservedTypeName
  | .invalidAssignmentTarget => .invalidAssignmentTarget
  | .returnOutsideFunction => .returnOutsideFunction

def message (types : Store Ty) : CheckError → String
  | .alreadyDefined name => s!"`{name}` is already defined in this scope"
  | .undefinedType name => s!"undefined type `{name}`"
  | .undefinedName name => s!"undefined name `{name}`"
  | .undefinedMember name => s!"object has no member `{name}`"
  | .duplicateParameter name => s!"duplicate parameter `{name}`"
  | .typeMismatch expected found =>
    s!"expected `{expected.text types}`, found `{found.text types}`"
  | .invalidOperands op left right =>
    s!"`{op.spelling}` cannot be applied to `{left.text types}` and `{right.text types}`"
  | .wrongArgumentCount name expected found =>
    s!"`{name}` expects {expected} argument(s), found {found}"
  | .notCallable name found => s!"`{name}` is not callable, found `{found.text types}`"
  | .notAnObject found => s!"expected an object, found `{found.text types}`"
  | .reservedTypeName name => s!"object name `{name}` is a predefined type"
  | .invalidAssignmentTarget => "only variables and properties can be assigned"
  | .returnOutsideFunction => "RETURN outside of a function"

def toDiagnostic (types : Store Ty) (e : CheckError) : Diagnostic :=
  .ofCode e.code (e.message types)

end CheckError

end ObjectLang
