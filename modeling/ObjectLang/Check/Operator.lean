import ObjectLang.Check.Error

/-!
# Typing of operators

The type of `left op right` from the types of the operands.

* Addition of a text and anything is a text; otherwise it is arithmetic.
* Arithmetic takes two numbers of one type and gives a number of that type.
* An ordering takes two operands of one type below `Comparable`.
* A test for equality takes any two operands below `Equatable`; their types may differ.
* Conjunction and disjunction take truth values.
-/

namespace ObjectLang

/-- Succeeds if values of type `found` may stand where one of type `expected` is wanted. -/
def Ty.requireSubtype (found expected : Ty) : Except CheckError Unit :=
  if found.subtypeOf expected then .ok () else .error (.typeMismatch expected found)

/-- Succeeds if the right operand has the type of the left one. -/
def Ty.requireSame (left right : Ty) : Except CheckError Unit :=
  if right = left then .ok () else .error (.typeMismatch left right)

namespace Operator

/-- The type of an arithmetic operation. -/
def arithmeticTy (op : Operator) (left right : Ty) : Except CheckError Ty :=
  if left.isNumeric then do
    left.requireSame right
    return left
  else .error (.invalidOperands op left right)

/-- The type of the operation, or why the operands do not fit. -/
def resultTy (op : Operator) (left right : Ty) : Except CheckError Ty :=
  match op with
  | .add => if left = .string ∨ right = .string then .ok .string else op.arithmeticTy left right
  | .sub | .mul | .div => op.arithmeticTy left right
  | .less | .lessEq | .greater | .greaterEq => do
    left.requireSubtype .comparable
    left.requireSame right
    return .boolean
  | .eq | .notEq => do
    left.requireSubtype .equatable
    right.requireSubtype .equatable
    return .boolean
  | .and | .or => do
    left.requireSubtype .boolean
    right.requireSubtype .boolean
    return .boolean

end Operator

end ObjectLang
