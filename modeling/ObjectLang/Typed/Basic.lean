import ObjectLang.Program.Basic
import ObjectLang.Ty.Basic

/-!
# Typed programs

What the checker makes of a program: the same tree, with the type of every expression in place of
the declared type names. A declaration, a loop and a parameter carry the type that their name is
bound to, and an assignment says what kind of target it has.
-/

namespace ObjectLang

/-- A parameter with its type. -/
structure TypedParameter where
  name : String
  ty : Ty
deriving DecidableEq, Repr, Inhabited

mutual

/-- An expression with its type. -/
inductive TypedExpr where
  | literal (value : Literal) (ty : Ty)
  | group (inner : TypedExpr)
  | binary (op : Operator) (left right : TypedExpr) (ty : Ty)
  | variable (name : String) (ty : Ty)
  | property (receiver : TypedExpr) (name : String) (ty : Ty)
  | call (name : String) (arguments : List TypedExpr) (ty : Ty)
  | method (receiver : TypedExpr) (name : String) (arguments : List TypedExpr) (ty : Ty)
  | object (name : Option String) (fields : List TypedDeclaration)
      (methods : List TypedDefinition) (ty : Ty)

/-- A statement with the types of its parts. -/
inductive TypedStmt where
  | declare (declaration : TypedDeclaration)
  | define (definition : TypedDefinition)
  | branch (condition : TypedExpr) (thenBody elseBody : List TypedStmt)
  | forEach (name : String) (ty : Ty) (items : TypedExpr) (body : List TypedStmt)
  /-- Leaves the enclosing function. -/
  | ret (value : Option TypedExpr)
  | expression (value : TypedExpr)
  | assignVariable (name : String) (ty : Ty) (value : TypedExpr)
  | assignProperty (receiver : TypedExpr) (name : String) (ty : Ty) (value : TypedExpr)

/-- A variable or a field with its type. -/
structure TypedDeclaration where
  name : String
  ty : Ty
  value : Option TypedExpr

/-- A function or a method with its types. -/
structure TypedDefinition where
  name : String
  parameters : List TypedParameter
  returns : Ty
  body : List TypedStmt

end

/-- A complete typed unit. -/
structure TypedProgram where
  statements : List TypedStmt

instance : Inhabited TypedExpr := ⟨.literal .nil .nil⟩

instance : Inhabited TypedStmt := ⟨.ret none⟩

instance : Inhabited TypedProgram := ⟨⟨[]⟩⟩

/-- The type of an expression; parentheses do not change it. -/
def TypedExpr.ty : TypedExpr → Ty
  | .group inner => inner.ty
  | .literal _ ty | .binary _ _ _ ty | .variable _ ty | .property _ _ ty | .call _ _ ty
  | .method _ _ _ ty | .object _ _ _ ty => ty

/-- The type of a function with the given parameters and result. -/
def functionTy (parameters : List TypedParameter) (returns : Ty) : Ty :=
  .function (parameters.map (·.ty)) returns

/-- The type of the function; a method's receiver is not part of it. -/
def TypedDefinition.ty (d : TypedDefinition) : Ty := functionTy d.parameters d.returns

/-- The type that a statement is about: of what it binds, tests, returns or evaluates, and of the
target for an assignment. A return without value has none. -/
def TypedStmt.ty? : TypedStmt → Option Ty
  | .declare declaration => some declaration.ty
  | .define definition => some definition.ty
  | .branch condition _ _ => some condition.ty
  | .forEach _ ty _ _ => some ty
  | .ret value => value.map (·.ty)
  | .expression value => some value.ty
  | .assignVariable _ ty _ => some ty
  | .assignProperty _ _ ty _ => some ty

end ObjectLang
