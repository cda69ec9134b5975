import ObjectLang.Program.Basic

/-!
# Programs whose variables have initial values

A variable or field that is declared with a type, but without an initial value, holds the empty
value, whatever its type is. A program is initialized if it has no such declaration. -/

namespace ObjectLang

mutual

/-- All fields in the expression that are declared with a type have initial values. -/
def Expr.Initialized : Expr → Prop
  | .literal _ | .variable _ => True
  | .group inner => inner.Initialized
  | .binary _ left right => left.Initialized ∧ right.Initialized
  | .property receiver _ => receiver.Initialized
  | .call _ arguments => InitializedExprs arguments
  | .method receiver _ arguments => receiver.Initialized ∧ InitializedExprs arguments
  | .object _ fields methods => InitializedFields fields ∧ InitializedMethods methods

def InitializedExprs : List Expr → Prop
  | [] => True
  | e :: rest => e.Initialized ∧ InitializedExprs rest

def InitializedOption : Option Expr → Prop
  | none => True
  | some e => e.Initialized

/-- There is an initial value if there is a type. -/
def Declaration.Initialized : Declaration → Prop
  | ⟨_, typeName, value⟩ => (typeName.isSome → value.isSome) ∧ InitializedOption value

def InitializedFields : List Declaration → Prop
  | [] => True
  | d :: rest => d.Initialized ∧ InitializedFields rest

def Definition.Initialized : Definition → Prop
  | ⟨_, _, _, body⟩ => InitializedStmts body

def InitializedMethods : List Definition → Prop
  | [] => True
  | d :: rest => d.Initialized ∧ InitializedMethods rest

/-- All variables and fields in the statement that are declared with a type have initial values. -/
def Stmt.Initialized : Stmt → Prop
  | .declare d => d.Initialized
  | .define d => d.Initialized
  | .branch condition thenBody elseBody =>
    condition.Initialized ∧ InitializedStmts thenBody ∧ InitializedStmts elseBody
  | .forEach _ items body => items.Initialized ∧ InitializedStmts body
  | .ret value => InitializedOption value
  | .expression value => value.Initialized
  | .assign target value => target.Initialized ∧ value.Initialized

def InitializedStmts : List Stmt → Prop
  | [] => True
  | s :: rest => s.Initialized ∧ InitializedStmts rest

end

/-- Every variable and every field of the program that is declared with a type has an initial value.
-/
def Program.Initialized (p : Program) : Prop := InitializedStmts p.statements

theorem Definition.Initialized.body {d : Definition} (h : d.Initialized) :
    InitializedStmts d.body := by
  cases d
  rwa [Definition.Initialized] at h

end ObjectLang
