import ObjectLang.Program.Basic
import ObjectLang.Scope.Store

/-!
# Well-scoped programs

A program is well-scoped if every name that it looks up is visible where it stands, no frame gets a
name twice, and returns stand inside of functions. This is a property of the text of a program
alone. The names that are visible are given as a list, and so are the names that a block has already
bound in its own frame.

Members of objects are not in scope. They are looked up through a receiver, so they do not count
here, except that an object must not have two members of one name. -/

namespace ObjectLang

/-- The names that a statement binds in the frame of its context. -/
def Stmt.binds : Stmt → List String
  | .declare d => [d.name]
  | .define d => [d.name]
  | _ => []

/-- The frame that gets the names of a statement which runs in the frame `f`. -/
def Stmt.home (f : FrameId) : Stmt → Option FrameId
  | .declare _ | .define _ => some f
  | _ => none

/-- The names that a call of the function or method binds. -/
def Definition.bindings (isMethod : Bool) (d : Definition) : List String :=
  if isMethod then thisName :: d.parameters.map (·.name) else d.parameters.map (·.name)

/-- No name is repeated if there are no duplicates. -/
theorem firstRepeated?_eq_none {seen names : List String} (hnodup : names.Nodup)
    (hseen : ∀ name ∈ names, name ∉ seen) : firstRepeated? seen names = none := by
  induction names generalizing seen with
  | nil => rfl
  | cons name rest ih =>
    obtain ⟨hname, hrest⟩ := List.nodup_cons.mp hnodup
    rw [firstRepeated?, if_neg (hseen name List.mem_cons_self)]
    refine ih hrest fun name' hname' hmem => ?_
    rcases List.mem_cons.mp hmem with rfl | hmem
    · exact hname hname'
    · exact hseen name' (List.mem_cons_of_mem _ hname') hmem

/-! ## Names of a program -/

mutual

/-- The names that an expression looks up in scopes or binds there. -/
def Expr.names : Expr → List String
  | .literal _ => []
  | .group inner => inner.names
  | .binary _ left right => left.names ++ right.names
  | .variable name => [name]
  | .property receiver _ => receiver.names
  | .call name arguments => name :: namesOfExprs arguments
  | .method receiver _ arguments => receiver.names ++ namesOfExprs arguments
  | .object _ fields methods => namesOfFields fields ++ namesOfDefinitions methods

/-- The names of several expressions. -/
def namesOfExprs : List Expr → List String
  | [] => []
  | e :: rest => e.names ++ namesOfExprs rest

/-- The names of an optional expression. -/
def namesOfOption : Option Expr → List String
  | none => []
  | some e => e.names

/-- The names in the initial value of a declaration. -/
def Declaration.valueNames : Declaration → List String
  | ⟨_, _, value⟩ => namesOfOption value

/-- The names in the initial values of fields. -/
def namesOfFields : List Declaration → List String
  | [] => []
  | d :: rest => d.valueNames ++ namesOfFields rest

/-- The names in a function or method, its own name aside. -/
def Definition.bodyNames : Definition → List String
  | ⟨_, parameters, _, body⟩ => parameters.map (·.name) ++ namesOfStmts body

/-- The names in methods. -/
def namesOfDefinitions : List Definition → List String
  | [] => []
  | d :: rest => d.bodyNames ++ namesOfDefinitions rest

/-- The names that a statement looks up or binds. -/
def Stmt.names : Stmt → List String
  | .declare d => d.name :: d.valueNames
  | .define d => d.name :: d.bodyNames
  | .branch condition thenBody elseBody =>
    condition.names ++ namesOfStmts thenBody ++ namesOfStmts elseBody
  | .forEach name items body => name :: items.names ++ namesOfStmts body
  | .ret value => namesOfOption value
  | .expression value => value.names
  | .assign target value => target.names ++ value.names

/-- The names of several statements. -/
def namesOfStmts : List Stmt → List String
  | [] => []
  | s :: rest => s.names ++ namesOfStmts rest

end

theorem Stmt.mem_names_of_mem_binds {s : Stmt} {name : String} (h : name ∈ s.binds) :
    name ∈ s.names := by
  cases s with
  | declare d => exact List.mem_cons.mpr (.inl (List.mem_singleton.mp h))
  | define d => exact List.mem_cons.mpr (.inl (List.mem_singleton.mp h))
  | _ => cases h

/-- The names that a program looks up or binds. -/
def Program.names (p : Program) : List String := namesOfStmts p.statements

/-! ## Scoping -/

mutual

/-- The expression looks up visible names only. -/
def Expr.Scoped (visible : List String) : Expr → Prop
  | .literal _ => True
  | .group inner => inner.Scoped visible
  | .binary _ left right => left.Scoped visible ∧ right.Scoped visible
  | .variable name => name ∈ visible
  | .property receiver _ => receiver.Scoped visible
  | .call name arguments => name ∈ visible ∧ ScopedExprs visible arguments
  | .method receiver _ arguments => receiver.Scoped visible ∧ ScopedExprs visible arguments
  | .object _ fields methods =>
    (fields.map (·.name) ++ methods.map (·.name)).Nodup ∧
      ScopedFields visible fields ∧ ScopedMethods visible methods

/-- All expressions are well-scoped. -/
def ScopedExprs (visible : List String) : List Expr → Prop
  | [] => True
  | e :: rest => e.Scoped visible ∧ ScopedExprs visible rest

/-- The expression is well-scoped if there is one. -/
def ScopedOption (visible : List String) : Option Expr → Prop
  | none => True
  | some e => e.Scoped visible

/-- The initial value is well-scoped. -/
def Declaration.Scoped (visible : List String) : Declaration → Prop
  | ⟨_, _, value⟩ => ScopedOption visible value

/-- The initial values of all fields are well-scoped. -/
def ScopedFields (visible : List String) : List Declaration → Prop
  | [] => True
  | d :: rest => d.Scoped visible ∧ ScopedFields visible rest

/-- A call binds no name twice, and the body is well-scoped in a frame with what a call binds. -/
def Definition.Scoped (visible : List String) (isMethod : Bool) : Definition → Prop
  | ⟨name, parameters, returnType, body⟩ =>
    let bindings := Definition.bindings isMethod ⟨name, parameters, returnType, body⟩
    bindings.Nodup ∧ ScopedStmts true (bindings ++ visible) bindings body

/-- All methods are well-scoped. -/
def ScopedMethods (visible : List String) : List Definition → Prop
  | [] => True
  | d :: rest => d.Scoped visible true ∧ ScopedMethods visible rest

/-- The statement is well-scoped in a frame that has the names `own`. Returns are allowed in the
body of a function. -/
def Stmt.Scoped (inFunction : Bool) (visible own : List String) : Stmt → Prop
  | .declare d => d.name ∉ own ∧ d.Scoped visible
  | .define d => d.name ∉ own ∧ d.Scoped (d.name :: visible) false
  | .branch condition thenBody elseBody =>
    condition.Scoped visible ∧ ScopedStmts inFunction visible [] thenBody ∧
      ScopedStmts inFunction visible [] elseBody
  | .forEach name items body =>
    items.Scoped visible ∧ ScopedStmts inFunction (name :: visible) [name] body
  | .ret value => inFunction = true ∧ ScopedOption visible value
  | .expression value => value.Scoped visible
  | .assign (.variable name) value => name ∈ visible ∧ value.Scoped visible
  | .assign (.property receiver _) value => receiver.Scoped visible ∧ value.Scoped visible
  | .assign _ _ => False

/-- The statements are well-scoped one after another. -/
def ScopedStmts (inFunction : Bool) (visible own : List String) : List Stmt → Prop
  | [] => True
  | s :: rest =>
    s.Scoped inFunction visible own ∧
      ScopedStmts inFunction (s.binds ++ visible) (s.binds ++ own) rest

end

end ObjectLang
