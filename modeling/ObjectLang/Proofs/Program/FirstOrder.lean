import ObjectLang.Program.Basic

/-!
# First-order programs

A first-order program defines no functions and makes no objects. It declares, assigns and reads
variables, branches, loops, and calls the functions that every program can use. A type that it names
is one of the five types of primitive values. -/

namespace ObjectLang

/-- The names of the types of primitive values. -/
def primitiveNames : List String := ["Nil", "Boolean", "Integer", "Decimal", "String"]

mutual

/-- The expression reads no member, calls no method and makes no object. -/
def Expr.FirstOrder : Expr → Prop
  | .literal _ | .variable _ => True
  | .group inner => inner.FirstOrder
  | .binary _ left right => left.FirstOrder ∧ right.FirstOrder
  | .call _ arguments => FirstOrderExprs arguments
  | .property _ _ | .method _ _ _ | .object _ _ _ => False

/-- All expressions are first-order. -/
def FirstOrderExprs : List Expr → Prop
  | [] => True
  | e :: rest => e.FirstOrder ∧ FirstOrderExprs rest

end

/-- The declaration has an initial value, and its type is that of primitive values if it names one.
-/
def Declaration.FirstOrder : Declaration → Prop
  | ⟨_, typeName, some value⟩ => (∀ name ∈ typeName, name ∈ primitiveNames) ∧ value.FirstOrder
  | ⟨_, _, none⟩ => False

mutual

/-- The statement neither defines a function nor returns, and assigns to no member. -/
def Stmt.FirstOrder : Stmt → Prop
  | .declare d => d.FirstOrder
  | .branch condition thenBody elseBody =>
    condition.FirstOrder ∧ FirstOrderStmts thenBody ∧ FirstOrderStmts elseBody
  | .forEach _ items body => items.FirstOrder ∧ FirstOrderStmts body
  | .expression value => value.FirstOrder
  | .assign (.variable _) value => value.FirstOrder
  | .assign _ _ | .define _ | .ret _ => False

/-- All statements are first-order. -/
def FirstOrderStmts : List Stmt → Prop
  | [] => True
  | s :: rest => s.FirstOrder ∧ FirstOrderStmts rest

end

end ObjectLang
