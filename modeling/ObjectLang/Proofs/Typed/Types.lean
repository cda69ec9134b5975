import ObjectLang.Check.Error
import ObjectLang.Typed.Basic

/-!
# Types in a typed program

All types that a typed program hands out: those of its expressions, of the names that it binds, of
parameters and of results, those inside of bodies and of object literals included. A rejection hands
out the types that its message shows.
-/

namespace ObjectLang

mutual

/-- The types in an expression. -/
def TypedExpr.types : TypedExpr → List Ty
  | .literal _ ty => [ty]
  | .group inner => inner.types
  | .binary _ left right ty => ty :: (left.types ++ right.types)
  | .variable _ ty => [ty]
  | .property receiver _ ty => ty :: receiver.types
  | .call _ arguments ty => ty :: typesOfExprs arguments
  | .method receiver _ arguments ty => ty :: (receiver.types ++ typesOfExprs arguments)
  | .object _ fields methods ty => ty :: (typesOfFields fields ++ typesOfMethods methods)

def typesOfExprs : List TypedExpr → List Ty
  | [] => []
  | e :: rest => e.types ++ typesOfExprs rest

def typesOfOption : Option TypedExpr → List Ty
  | none => []
  | some e => e.types

/-- The types in a declaration. -/
def TypedDeclaration.types : TypedDeclaration → List Ty
  | ⟨_, ty, value⟩ => ty :: typesOfOption value

def typesOfFields : List TypedDeclaration → List Ty
  | [] => []
  | d :: rest => d.types ++ typesOfFields rest

/-- The types in a function or method. -/
def TypedDefinition.types : TypedDefinition → List Ty
  | ⟨_, parameters, returns, body⟩ => returns :: (parameters.map (·.ty) ++ typesOfStmts body)

def typesOfMethods : List TypedDefinition → List Ty
  | [] => []
  | d :: rest => d.types ++ typesOfMethods rest

/-- The types in a statement. -/
def TypedStmt.types : TypedStmt → List Ty
  | .declare d => d.types
  | .define d => d.types
  | .branch condition thenBody elseBody =>
    condition.types ++ (typesOfStmts thenBody ++ typesOfStmts elseBody)
  | .forEach _ ty items body => ty :: (items.types ++ typesOfStmts body)
  | .ret value => typesOfOption value
  | .expression value => value.types
  | .assignVariable _ ty value => ty :: value.types
  | .assignProperty receiver _ ty value => ty :: (receiver.types ++ value.types)

def typesOfStmts : List TypedStmt → List Ty
  | [] => []
  | s :: rest => s.types ++ typesOfStmts rest

end

/-- The types in a program. -/
def TypedProgram.types (p : TypedProgram) : List Ty := typesOfStmts p.statements

/-- The types that a rejection is about. -/
def CheckError.types : CheckError → List Ty
  | .typeMismatch expected found => [expected, found]
  | .invalidOperands _ left right => [left, right]
  | .notCallable _ found => [found]
  | .notAnObject found => [found]
  | _ => []

/-- The type of an expression is one of the types in it. -/
theorem TypedExpr.ty_mem_types : ∀ e : TypedExpr, e.ty ∈ e.types
  | .group inner => by
    rw [ty, types]
    exact inner.ty_mem_types
  | .literal _ _ | .binary _ _ _ _ | .variable _ _ | .property _ _ _ | .call _ _ _
  | .method _ _ _ _ | .object _ _ _ _ => by
    rw [ty, types]
    exact List.mem_cons_self

theorem TypedDeclaration.ty_mem_types (d : TypedDeclaration) : d.ty ∈ d.types := by
  cases d
  rw [types]
  exact List.mem_cons_self

end ObjectLang
