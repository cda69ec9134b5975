import ObjectLang.Proofs.Eval.Entry
import ObjectLang.Proofs.Program.Untyped

/-!
# Trimmed programs

Declared types and parentheses can be left out of a program at every depth, in the bodies of
functions and methods as well. Parentheses matter in one place, around the target of an assignment:
there an expression in parentheses is no target, but may be one without them.
-/

namespace ObjectLang

/-- What is left out of a program. -/
structure Trimming where
  /-- Whether declared types are left out. -/
  types : Bool := false
  /-- Whether parentheses are left out. -/
  groups : Bool := false

variable (t : Trimming)

/-- The name of a declared type, unless declared types are left out. -/
def Trimming.typeName (name : Option String) : Option String := if t.types then none else name

/-- An expression in parentheses, unless these are left out. -/
def Trimming.group (e : Expr) : Expr := if t.groups then e else .group e

/-- The trimmed parameter. -/
def Parameter.trim (p : Parameter) : Parameter := { p with typeName := t.typeName p.typeName }

mutual

/-- The trimmed expression. -/
def Expr.trim : Expr → Expr
  | .literal value => .literal value
  | .group inner => t.group inner.trim
  | .binary op left right => .binary op left.trim right.trim
  | .variable name => .variable name
  | .property receiver name => .property receiver.trim name
  | .call name arguments => .call name (trimExprs arguments)
  | .method receiver name arguments => .method receiver.trim name (trimExprs arguments)
  | .object name fields methods => .object name (trimFields fields) (trimMethods methods)

/-- The trimmed expressions. -/
def trimExprs : List Expr → List Expr
  | [] => []
  | e :: rest => e.trim :: trimExprs rest

/-- The trimmed expression, if there is one. -/
def trimOption : Option Expr → Option Expr
  | none => none
  | some e => some e.trim

/-- The trimmed declaration. -/
def Declaration.trim : Declaration → Declaration
  | ⟨name, typeName, value⟩ => ⟨name, t.typeName typeName, trimOption value⟩

/-- The trimmed fields. -/
def trimFields : List Declaration → List Declaration
  | [] => []
  | d :: rest => d.trim :: trimFields rest

/-- The trimmed function or method. -/
def Definition.trim : Definition → Definition
  | ⟨name, parameters, returnType, body⟩ =>
    ⟨name, parameters.map (Parameter.trim t), t.typeName returnType, trimStmts body⟩

/-- The trimmed methods. -/
def trimMethods : List Definition → List Definition
  | [] => []
  | d :: rest => d.trim :: trimMethods rest

/-- The trimmed statement. -/
def Stmt.trim : Stmt → Stmt
  | .declare d => .declare d.trim
  | .define d => .define d.trim
  | .branch condition thenBody elseBody =>
    .branch condition.trim (trimStmts thenBody) (trimStmts elseBody)
  | .forEach name items body => .forEach name items.trim (trimStmts body)
  | .ret value => .ret (trimOption value)
  | .expression value => .expression value.trim
  | .assign target value => .assign target.trim value.trim

/-- The trimmed statements. -/
def trimStmts : List Stmt → List Stmt
  | [] => []
  | s :: rest => s.trim :: trimStmts rest

end

/-- The trimmed program. -/
def Program.trim (p : Program) : Program := ⟨trimStmts t p.statements⟩

/-- The program without parentheses. -/
def Program.ungrouped (p : Program) : Program := p.trim { groups := true }

/-! ## Nothing left out -/

theorem Trimming.typeName_empty (name : Option String) :
    ({} : Trimming).typeName name = name := rfl

mutual

theorem Expr.trim_empty : ∀ e : Expr, e.trim {} = e
  | .literal value => by rw [Expr.trim]
  | .group inner => by rw [Expr.trim, Expr.trim_empty inner]; rfl
  | .binary op left right => by rw [Expr.trim, Expr.trim_empty left, Expr.trim_empty right]
  | .variable name => by rw [Expr.trim]
  | .property receiver name => by rw [Expr.trim, Expr.trim_empty receiver]
  | .call name arguments => by rw [Expr.trim, trimExprs_empty arguments]
  | .method receiver name arguments => by
    rw [Expr.trim, Expr.trim_empty receiver, trimExprs_empty arguments]
  | .object name fields methods => by
    rw [Expr.trim, trimFields_empty fields, trimMethods_empty methods]

theorem trimExprs_empty : ∀ es : List Expr, trimExprs {} es = es
  | [] => by rw [trimExprs]
  | e :: rest => by rw [trimExprs, Expr.trim_empty e, trimExprs_empty rest]

theorem trimOption_empty : ∀ e : Option Expr, trimOption {} e = e
  | none => by rw [trimOption]
  | some e => by rw [trimOption, Expr.trim_empty e]

theorem Declaration.trim_empty : ∀ d : Declaration, d.trim {} = d
  | ⟨name, typeName, value⟩ => by
    rw [Declaration.trim, trimOption_empty value, Trimming.typeName_empty]

theorem trimFields_empty : ∀ ds : List Declaration, trimFields {} ds = ds
  | [] => by rw [trimFields]
  | d :: rest => by rw [trimFields, Declaration.trim_empty d, trimFields_empty rest]

theorem Definition.trim_empty : ∀ d : Definition, d.trim {} = d
  | ⟨name, parameters, returnType, body⟩ => by
    have hparameter : Parameter.trim {} = id := rfl
    rw [Definition.trim, trimStmts_empty body, Trimming.typeName_empty, hparameter, List.map_id]

theorem trimMethods_empty : ∀ ds : List Definition, trimMethods {} ds = ds
  | [] => by rw [trimMethods]
  | d :: rest => by rw [trimMethods, Definition.trim_empty d, trimMethods_empty rest]

theorem Stmt.trim_empty : ∀ s : Stmt, s.trim {} = s
  | .declare d => by rw [Stmt.trim, Declaration.trim_empty d]
  | .define d => by rw [Stmt.trim, Definition.trim_empty d]
  | .branch condition thenBody elseBody => by
    rw [Stmt.trim, Expr.trim_empty condition, trimStmts_empty thenBody, trimStmts_empty elseBody]
  | .forEach name items body => by
    rw [Stmt.trim, Expr.trim_empty items, trimStmts_empty body]
  | .ret value => by rw [Stmt.trim, trimOption_empty value]
  | .expression value => by rw [Stmt.trim, Expr.trim_empty value]
  | .assign target value => by rw [Stmt.trim, Expr.trim_empty target, Expr.trim_empty value]

theorem trimStmts_empty : ∀ body : List Stmt, trimStmts {} body = body
  | [] => by rw [trimStmts]
  | s :: rest => by rw [trimStmts, Stmt.trim_empty s, trimStmts_empty rest]

end

/-! ## Declared types left out -/

mutual

theorem Expr.untyped_eq_trim : ∀ e : Expr, e.untyped = e.trim { types := true }
  | .literal value => by rw [Expr.untyped, Expr.trim]
  | .group inner => by rw [Expr.untyped, Expr.trim, Expr.untyped_eq_trim inner]; rfl
  | .binary op left right => by
    rw [Expr.untyped, Expr.trim, Expr.untyped_eq_trim left, Expr.untyped_eq_trim right]
  | .variable name => by rw [Expr.untyped, Expr.trim]
  | .property receiver name => by rw [Expr.untyped, Expr.trim, Expr.untyped_eq_trim receiver]
  | .call name arguments => by rw [Expr.untyped, Expr.trim, untypedExprs_eq_trim arguments]
  | .method receiver name arguments => by
    rw [Expr.untyped, Expr.trim, Expr.untyped_eq_trim receiver, untypedExprs_eq_trim arguments]
  | .object name fields methods => by
    rw [Expr.untyped, Expr.trim, untypedFields_eq_trim fields, untypedMethods_eq_trim methods]

theorem untypedExprs_eq_trim : ∀ es : List Expr, untypedExprs es = trimExprs { types := true } es
  | [] => by rw [untypedExprs, trimExprs]
  | e :: rest => by
    rw [untypedExprs, trimExprs, Expr.untyped_eq_trim e, untypedExprs_eq_trim rest]

theorem untypedOption_eq_trim : ∀ e : Option Expr,
    untypedOption e = trimOption { types := true } e
  | none => by rw [untypedOption, trimOption]
  | some e => by rw [untypedOption, trimOption, Expr.untyped_eq_trim e]

theorem Declaration.untyped_eq_trim : ∀ d : Declaration, d.untyped = d.trim { types := true }
  | ⟨name, typeName, value⟩ => by
    rw [Declaration.untyped, Declaration.trim, untypedOption_eq_trim value]
    rfl

theorem untypedFields_eq_trim : ∀ ds : List Declaration,
    untypedFields ds = trimFields { types := true } ds
  | [] => by rw [untypedFields, trimFields]
  | d :: rest => by
    rw [untypedFields, trimFields, Declaration.untyped_eq_trim d, untypedFields_eq_trim rest]

theorem Definition.untyped_eq_trim : ∀ d : Definition, d.untyped = d.trim { types := true }
  | ⟨name, parameters, returnType, body⟩ => by
    rw [Definition.untyped, Definition.trim, untypedStmts_eq_trim body]
    rfl

theorem untypedMethods_eq_trim : ∀ ds : List Definition,
    untypedMethods ds = trimMethods { types := true } ds
  | [] => by rw [untypedMethods, trimMethods]
  | d :: rest => by
    rw [untypedMethods, trimMethods, Definition.untyped_eq_trim d, untypedMethods_eq_trim rest]

theorem Stmt.untyped_eq_trim : ∀ s : Stmt, s.untyped = s.trim { types := true }
  | .declare d => by rw [Stmt.untyped, Stmt.trim, Declaration.untyped_eq_trim d]
  | .define d => by rw [Stmt.untyped, Stmt.trim, Definition.untyped_eq_trim d]
  | .branch condition thenBody elseBody => by
    rw [Stmt.untyped, Stmt.trim, Expr.untyped_eq_trim condition, untypedStmts_eq_trim thenBody,
      untypedStmts_eq_trim elseBody]
  | .forEach name items body => by
    rw [Stmt.untyped, Stmt.trim, Expr.untyped_eq_trim items, untypedStmts_eq_trim body]
  | .ret value => by rw [Stmt.untyped, Stmt.trim, untypedOption_eq_trim value]
  | .expression value => by rw [Stmt.untyped, Stmt.trim, Expr.untyped_eq_trim value]
  | .assign target value => by
    rw [Stmt.untyped, Stmt.trim, Expr.untyped_eq_trim target, Expr.untyped_eq_trim value]

theorem untypedStmts_eq_trim : ∀ body : List Stmt,
    untypedStmts body = trimStmts { types := true } body
  | [] => by rw [untypedStmts, trimStmts]
  | s :: rest => by
    rw [untypedStmts, trimStmts, Stmt.untyped_eq_trim s, untypedStmts_eq_trim rest]

end

theorem Program.untyped_eq_trim (p : Program) : p.untyped = p.trim { types := true } :=
  congrArg Program.mk (untypedStmts_eq_trim p.statements)

/-! ## Targets of assignments -/

/-- Whether the expression stands in parentheses. -/
def Expr.isGroup : Expr → Bool
  | .group _ => true
  | _ => false

mutual

/-- The targets of the assignments in an expression. -/
def Expr.targets : Expr → List Expr
  | .literal _ | .variable _ => []
  | .group inner => inner.targets
  | .binary _ left right => left.targets ++ right.targets
  | .property receiver _ => receiver.targets
  | .call _ arguments => targetsOfExprs arguments
  | .method receiver _ arguments => receiver.targets ++ targetsOfExprs arguments
  | .object _ fields methods => targetsOfFields fields ++ targetsOfMethods methods

def targetsOfExprs : List Expr → List Expr
  | [] => []
  | e :: rest => e.targets ++ targetsOfExprs rest

def targetsOfOption : Option Expr → List Expr
  | none => []
  | some e => e.targets

/-- The targets of the assignments in a declaration. -/
def Declaration.targets : Declaration → List Expr
  | ⟨_, _, value⟩ => targetsOfOption value

def targetsOfFields : List Declaration → List Expr
  | [] => []
  | d :: rest => d.targets ++ targetsOfFields rest

/-- The targets of the assignments in a function or method. -/
def Definition.targets : Definition → List Expr
  | ⟨_, _, _, body⟩ => targetsOfStmts body

def targetsOfMethods : List Definition → List Expr
  | [] => []
  | d :: rest => d.targets ++ targetsOfMethods rest

/-- The targets of the assignments in a statement, its own included. -/
def Stmt.targets : Stmt → List Expr
  | .declare d => d.targets
  | .define d => d.targets
  | .branch condition thenBody elseBody =>
    condition.targets ++ (targetsOfStmts thenBody ++ targetsOfStmts elseBody)
  | .forEach _ items body => items.targets ++ targetsOfStmts body
  | .ret value => targetsOfOption value
  | .expression value => value.targets
  | .assign target value => [target] ++ (target.targets ++ value.targets)

def targetsOfStmts : List Stmt → List Expr
  | [] => []
  | s :: rest => s.targets ++ targetsOfStmts rest

end

/-- The targets of the assignments in a program. -/
def Program.targets (p : Program) : List Expr := targetsOfStmts p.statements

/-- Targets that stay what they are: parentheses around a target must not be left out. -/
def Trimming.Fits (targets : List Expr) : Prop :=
  t.groups = true → ∀ target ∈ targets, target.isGroup = false

theorem Trimming.fits_append_iff {t : Trimming} {targets targets' : List Expr} :
    t.Fits (targets ++ targets') ↔ t.Fits targets ∧ t.Fits targets' := by
  simp only [Fits, List.forall_mem_append]
  constructor
  · intro h
    exact ⟨fun ht => (h ht).1, fun ht => (h ht).2⟩
  · intro h ht
    exact ⟨h.1 ht, h.2 ht⟩

/-- Where parentheses stay, all targets stay what they are. -/
theorem Trimming.fits_of_groups {t : Trimming} (h : t.groups = false) (targets : List Expr) :
    t.Fits targets := by
  intro ht
  rw [h] at ht
  cases ht

/-- Where targets stay what they are, what is no target is none when it is trimmed. -/
theorem Expr.isTarget_trim {t : Trimming} : ∀ {target : Expr}, t.Fits [target] →
    ¬ target.IsTarget → ¬ (target.trim t).IsTarget
  | .literal _, _, h | .binary _ _ _, _, h | .call _ _, _, h | .method _ _ _, _, h
  | .object _ _ _, _, h => by
    rw [Expr.trim]
    exact h
  | .variable _, _, h | .property _ _, _, h => absurd trivial h
  | .group inner, hfits, _ => by
    rw [Expr.trim, Trimming.group]
    split
    · next hgroups =>
      have hgroup := hfits hgroups (.group inner) List.mem_cons_self
      cases hgroup
    · exact id

/-! ## Names -/

theorem Declaration.name_trim (d : Declaration) : (d.trim t).name = d.name := by
  obtain ⟨name, typeName, value⟩ := d
  rw [Declaration.trim]

theorem Definition.name_trim (d : Definition) : (d.trim t).name = d.name := by
  obtain ⟨name, parameters, returnType, body⟩ := d
  rw [Definition.trim]

/-! ## Functions -/

/-- The closure with a trimmed body. -/
def Closure.trim (c : Closure) : Closure := { c with body := trimStmts t c.body }

/-- The function with a trimmed body. -/
def Function.trim (function : Function) : Function :=
  match function.code with
  | .host _ => function
  | .closure c => { function with code := .closure (c.trim t) }

/-- The targets of the assignments in the body of a function. -/
def Function.targets (function : Function) : List Expr :=
  match function.code with
  | .host _ => []
  | .closure c => targetsOfStmts c.body

/-- The world in which all functions have trimmed bodies. -/
def World.trim (w : World) : World := { w with functions := w.functions.map (Function.trim t) }

theorem Function.trim_of_host {function : Function} {f : HostFunction}
    (h : function.code = .host f) : function.trim t = function := by
  rw [trim, h]

theorem Function.trim_empty (function : Function) : function.trim {} = function := by
  obtain ⟨name, code⟩ := function
  cases code with
  | host f => rfl
  | closure c => simp only [trim, Closure.trim, trimStmts_empty]

@[simp] theorem Function.name_trim (function : Function) :
    (function.trim t).name = function.name := by
  obtain ⟨name, code⟩ := function
  cases code <;> rfl

end ObjectLang
