import ObjectLang.Program.Basic

/-!
# Programs without declared types

The types that a program declares are bare names: of variables and fields, of parameters, and of
results. Taking all of them away leaves a program that says the same in every other respect. -/

namespace ObjectLang

/-- The parameter without its declared type. -/
def Parameter.untyped (p : Parameter) : Parameter := { p with typeName := none }

mutual

/-- The expression without declared types. -/
def Expr.untyped : Expr → Expr
  | .literal value => .literal value
  | .group inner => .group inner.untyped
  | .binary op left right => .binary op left.untyped right.untyped
  | .variable name => .variable name
  | .property receiver name => .property receiver.untyped name
  | .call name arguments => .call name (untypedExprs arguments)
  | .method receiver name arguments => .method receiver.untyped name (untypedExprs arguments)
  | .object name fields methods => .object name (untypedFields fields) (untypedMethods methods)

/-- The expressions without declared types. -/
def untypedExprs : List Expr → List Expr
  | [] => []
  | e :: rest => e.untyped :: untypedExprs rest

/-- The expression without declared types, if there is one. -/
def untypedOption : Option Expr → Option Expr
  | none => none
  | some e => some e.untyped

/-- The declaration without declared types. -/
def Declaration.untyped : Declaration → Declaration
  | ⟨name, _, value⟩ => ⟨name, none, untypedOption value⟩

/-- The fields without declared types. -/
def untypedFields : List Declaration → List Declaration
  | [] => []
  | d :: rest => d.untyped :: untypedFields rest

/-- The function or method without declared types. -/
def Definition.untyped : Definition → Definition
  | ⟨name, parameters, _, body⟩ =>
    ⟨name, parameters.map Parameter.untyped, none, untypedStmts body⟩

/-- The methods without declared types. -/
def untypedMethods : List Definition → List Definition
  | [] => []
  | d :: rest => d.untyped :: untypedMethods rest

/-- The statement without declared types. -/
def Stmt.untyped : Stmt → Stmt
  | .declare d => .declare d.untyped
  | .define d => .define d.untyped
  | .branch condition thenBody elseBody =>
    .branch condition.untyped (untypedStmts thenBody) (untypedStmts elseBody)
  | .forEach name items body => .forEach name items.untyped (untypedStmts body)
  | .ret value => .ret (untypedOption value)
  | .expression value => .expression value.untyped
  | .assign target value => .assign target.untyped value.untyped

/-- The statements without declared types. -/
def untypedStmts : List Stmt → List Stmt
  | [] => []
  | s :: rest => s.untyped :: untypedStmts rest

end

/-- The program without declared types. -/
def Program.untyped (p : Program) : Program := ⟨untypedStmts p.statements⟩

end ObjectLang
