import Mathlib.Data.List.Forall2
import ObjectLang.Check.Checker

/-!
# Typing rules

The type system that the checker decides, as rules. A scope is a chain of levels, innermost first,
and every block is one more level; nothing is ever put into a store. What an object type has for
members is given from the start by a table, so that a rule may speak of all members of an object
while it types the first of its methods. The rule for object literals says that the table is right
about the literal.

A judgement relates a tree to the typed tree that is made of it, as in `TypesExpr Δ Γ e t`: in the
scope `Γ`, where the object types have the members `Δ`, the expression `e` is well-typed, and `t` is
`e` with its types.
-/

namespace ObjectLang

/-! ## Types -/

/-- Values of the first type may stand where one of the second type is wanted. -/
inductive Ty.Below : Ty → Ty → Prop where
  | refl (t : Ty) : Below t t
  | any (t : Ty) : Below t .any
  | comparable {t : Ty} : t ∈ [boolean, integer, decimal, string] → Below t .comparable
  | equatable {t : Ty} :
      t ∈ [nil, boolean, integer, decimal, string, comparable, iterable] → Below t .equatable

/-- Operands of the first two types give a result of the third. -/
inductive Operator.Types : Operator → Ty → Ty → Ty → Prop where
  /-- A text is joined with anything. -/
  | joinRight (right : Ty) : Types .add .string right .string
  /-- Anything is joined with a text. -/
  | joinLeft (left : Ty) : Types .add left .string .string
  | arithmetic {op : Operator} {t : Ty} :
      op ∈ [add, sub, mul, div] → t ∈ [Ty.integer, Ty.decimal] → Types op t t t
  | ordering {op : Operator} {t : Ty} :
      op ∈ [less, lessEq, greater, greaterEq] → t.Below .comparable → Types op t t .boolean
  | equality {op : Operator} {left right : Ty} :
      op ∈ [eq, notEq] → left.Below .equatable → right.Below .equatable →
      Types op left right .boolean
  | logic {op : Operator} : op ∈ [and, or] → Types op .boolean .boolean .boolean

/-- The type that a type name stands for, `Any` where there is no name. -/
inductive Denotes : Option String → Ty → Prop where
  | none : Denotes none .any
  | some {name : String} {ty : Ty} : ty.name? = some name → Denotes (some name) ty

/-- A declaration with the given type name and initial value gives its name the type. -/
inductive Declares : Option String → Option TypedExpr → Ty → Prop where
  | neither : Declares none none .any
  /-- Without a type name the type is that of the initial value. -/
  | value (value : TypedExpr) : Declares none (some value) value.ty
  | typeName {name : String} {ty : Ty} : ty.name? = some name → Declares (some name) none ty
  | both {name : String} {ty : Ty} {value : TypedExpr} :
      ty.name? = some name → value.ty.Below ty → Declares (some name) (some value) ty

/-- The parameter gets the type that its type name stands for. -/
def Parameter.Types (p : Parameter) (t : TypedParameter) : Prop :=
  t.name = p.name ∧ Denotes p.typeName t.ty

/-! ## Scopes -/

/-- One level of a scope. -/
structure Level where
  /-- The object type whose members are the names of the level, if there may be one. -/
  frame : Option FrameId
  bindings : List (String × Ty)
deriving DecidableEq

/-- The level of a block that begins with the given bindings. -/
def Level.block (bindings : List (String × Ty)) : Level := ⟨none, bindings⟩

/-- The levels around a place in a program, innermost first. -/
abbrev Scope := List Level

namespace Scope

/-- What a name means: the nearest level that binds it decides. -/
def lookup (Γ : Scope) (name : String) : Option Ty := Γ.findSome? (·.bindings.lookup name)

/-- The names of the innermost level. -/
def ownNames : Scope → List String
  | [] => []
  | level :: _ => level.bindings.map Prod.fst

/-- The scope in which the innermost level has more bindings. -/
def bind (Γ : Scope) (bindings : List (String × Ty)) : Scope :=
  match Γ with
  | [] => []
  | level :: rest => { level with bindings := level.bindings ++ bindings } :: rest

/-- The members of an object type. The table says what they are, except that a level of the scope
which shows them knows better. -/
def members (Δ : FrameId → List (String × Ty)) (Γ : Scope) (o : FrameId) : List (String × Ty) :=
  match Γ.find? (·.frame == some o) with
  | some level => level.bindings
  | none => Δ o

end Scope

/-- What a declaration or a definition binds for the statements after it. -/
def TypedStmt.bindings : TypedStmt → List (String × Ty)
  | .declare d => [(d.name, d.ty)]
  | .define d => [(d.name, d.ty)]
  | _ => []

/-- The members of an object with the given fields and methods. -/
def memberBindings (fields : List TypedDeclaration) (methods : List TypedDefinition) :
    List (String × Ty) :=
  fields.map (fun d => (d.name, d.ty)) ++ methods.map (fun d => (d.name, d.ty))

/-! ## Trees -/

mutual

/-- The rules for expressions. -/
inductive TypesExpr (Δ : FrameId → List (String × Ty)) : Scope → Expr → TypedExpr → Prop where
  | literal {Γ : Scope} (value : Literal) : TypesExpr Δ Γ (.literal value) (.literal value value.ty)
  | group {Γ : Scope} {e : Expr} {t : TypedExpr} :
      TypesExpr Δ Γ e t → TypesExpr Δ Γ (.group e) (.group t)
  | binary {Γ : Scope} {op : Operator} {e e' : Expr} {t t' : TypedExpr} {ty : Ty} :
      TypesExpr Δ Γ e t → TypesExpr Δ Γ e' t' → op.Types t.ty t'.ty ty →
      TypesExpr Δ Γ (.binary op e e') (.binary op t t' ty)
  | variable {Γ : Scope} {name : String} {ty : Ty} :
      Γ.lookup name = some ty → TypesExpr Δ Γ (.variable name) (.variable name ty)
  | property {Γ : Scope} {e : Expr} {t : TypedExpr} {o : FrameId} {name : String} {ty : Ty} :
      TypesExpr Δ Γ e t → t.ty = .object o → (Γ.members Δ o).lookup name = some ty →
      TypesExpr Δ Γ (.property e name) (.property t name ty)
  | call {Γ : Scope} {name : String} {params : List Ty} {ty : Ty} {es : List Expr}
      {ts : List TypedExpr} :
      Γ.lookup name = some (.function params ty) → TypesArguments Δ Γ es params ts →
      TypesExpr Δ Γ (.call name es) (.call name ts ty)
  | method {Γ : Scope} {e : Expr} {t : TypedExpr} {o : FrameId} {name : String} {params : List Ty}
      {ty : Ty} {es : List Expr} {ts : List TypedExpr} :
      TypesExpr Δ Γ e t → t.ty = .object o →
      (Γ.members Δ o).lookup name = some (.function params ty) →
      TypesArguments Δ Γ es params ts → TypesExpr Δ Γ (.method e name es) (.method t name ts ty)
  /-- The fields are typed in the scope around the object, and so are the bodies of the methods,
  where `this` has the type of the whole object. -/
  | object {Γ : Scope} {name : Option String} {o : FrameId} {fields : List Declaration}
      {methods : List Definition} {tfields : List TypedDeclaration}
      {tmethods : List TypedDefinition} :
      (∀ n ∈ name, ∀ ty : Ty, ty.name? ≠ some n) →
      TypesFields Δ Γ fields tfields → TypesMethods Δ Γ (.object o) methods tmethods →
      Δ o = memberBindings tfields tmethods → ((Δ o).map Prod.fst).Nodup →
      TypesExpr Δ Γ (.object name fields methods) (.object name tfields tmethods (.object o))

/-- The rules for arguments, of which there are as many as parameters. -/
inductive TypesArguments (Δ : FrameId → List (String × Ty)) :
    Scope → List Expr → List Ty → List TypedExpr → Prop where
  | nil {Γ : Scope} : TypesArguments Δ Γ [] [] []
  | cons {Γ : Scope} {e : Expr} {t : TypedExpr} {param : Ty} {es : List Expr} {params : List Ty}
      {ts : List TypedExpr} :
      TypesExpr Δ Γ e t → t.ty.Below param → TypesArguments Δ Γ es params ts →
      TypesArguments Δ Γ (e :: es) (param :: params) (t :: ts)

/-- The rules for an expression that may be missing. -/
inductive TypesOption (Δ : FrameId → List (String × Ty)) :
    Scope → Option Expr → Option TypedExpr → Prop where
  | none {Γ : Scope} : TypesOption Δ Γ none none
  | some {Γ : Scope} {e : Expr} {t : TypedExpr} :
      TypesExpr Δ Γ e t → TypesOption Δ Γ (some e) (some t)

/-- The rule for variables and fields. -/
inductive TypesDeclaration (Δ : FrameId → List (String × Ty)) :
    Scope → Declaration → TypedDeclaration → Prop where
  | mk {Γ : Scope} {name : String} {typeName : Option String} {value : Option Expr}
      {tvalue : Option TypedExpr} {ty : Ty} :
      TypesOption Δ Γ value tvalue → Declares typeName tvalue ty →
      TypesDeclaration Δ Γ ⟨name, typeName, value⟩ ⟨name, ty, tvalue⟩

/-- The rules for fields, each of which is typed on its own. -/
inductive TypesFields (Δ : FrameId → List (String × Ty)) :
    Scope → List Declaration → List TypedDeclaration → Prop where
  | nil {Γ : Scope} : TypesFields Δ Γ [] []
  | cons {Γ : Scope} {d : Declaration} {t : TypedDeclaration} {ds : List Declaration}
      {ts : List TypedDeclaration} :
      TypesDeclaration Δ Γ d t → TypesFields Δ Γ ds ts → TypesFields Δ Γ (d :: ds) (t :: ts)

/-- The rules for methods of an object of the given type. -/
inductive TypesMethods (Δ : FrameId → List (String × Ty)) :
    Scope → Ty → List Definition → List TypedDefinition → Prop where
  | nil {Γ : Scope} {this : Ty} : TypesMethods Δ Γ this [] []
  | cons {Γ : Scope} {this : Ty} {d : Definition} {t : TypedDefinition} {ds : List Definition}
      {ts : List TypedDefinition} :
      TypesDefinition Δ Γ (some this) d t → TypesMethods Δ Γ this ds ts →
      TypesMethods Δ Γ this (d :: ds) (t :: ts)

/-- The rule for functions and methods. The level of the body has the receiver of a method, the
parameters, and the type that returns have to fit. -/
inductive TypesDefinition (Δ : FrameId → List (String × Ty)) :
    Scope → Option Ty → Definition → TypedDefinition → Prop where
  | mk {Γ : Scope} {this : Option Ty} {name : String} {parameters : List Parameter}
      {returnType : Option String} {body : List Stmt} {tparameters : List TypedParameter}
      {returns : Ty} {tbody : List TypedStmt} :
      List.Forall₂ Parameter.Types parameters tparameters → Denotes returnType returns →
      ((Check.bodyBindings this ⟨tparameters, returns⟩).map Prod.fst).Nodup →
      TypesStmts Δ (.block (Check.bodyBindings this ⟨tparameters, returns⟩) :: Γ) body tbody →
      TypesDefinition Δ Γ this ⟨name, parameters, returnType, body⟩
        ⟨name, tparameters, returns, tbody⟩

/-- The rules for statements. -/
inductive TypesStmt (Δ : FrameId → List (String × Ty)) : Scope → Stmt → TypedStmt → Prop where
  | declare {Γ : Scope} {d : Declaration} {t : TypedDeclaration} :
      d.name ∉ Γ.ownNames → TypesDeclaration Δ Γ d t → TypesStmt Δ Γ (.declare d) (.declare t)
  /-- A function may call itself. -/
  | define {Γ : Scope} {d : Definition} {t : TypedDefinition} :
      d.name ∉ Γ.ownNames → TypesDefinition Δ (Γ.bind [(t.name, t.ty)]) none d t →
      TypesStmt Δ Γ (.define d) (.define t)
  | branch {Γ : Scope} {e : Expr} {t : TypedExpr} {thenBody elseBody : List Stmt}
      {tthen telse : List TypedStmt} :
      TypesExpr Δ Γ e t → t.ty.Below .boolean → TypesStmts Δ (.block [] :: Γ) thenBody tthen →
      TypesStmts Δ (.block [] :: Γ) elseBody telse →
      TypesStmt Δ Γ (.branch e thenBody elseBody) (.branch t tthen telse)
  | forEach {Γ : Scope} {name : String} {e : Expr} {t : TypedExpr} {body : List Stmt}
      {tbody : List TypedStmt} :
      TypesExpr Δ Γ e t → t.ty.Below .iterable →
      TypesStmts Δ (.block [(name, .integer)] :: Γ) body tbody →
      TypesStmt Δ Γ (.forEach name e body) (.forEach name .integer t tbody)
  /-- A return without value returns the empty value. -/
  | ret {Γ : Scope} {e : Option Expr} {t : Option TypedExpr} {returns : Ty} :
      Γ.lookup returnsName = some returns → TypesOption Δ Γ e t →
      (t.elim .nil (·.ty)).Below returns → TypesStmt Δ Γ (.ret e) (.ret t)
  | expression {Γ : Scope} {e : Expr} {t : TypedExpr} :
      TypesExpr Δ Γ e t → TypesStmt Δ Γ (.expression e) (.expression t)
  | assignVariable {Γ : Scope} {name : String} {ty : Ty} {e : Expr} {t : TypedExpr} :
      Γ.lookup name = some ty → TypesExpr Δ Γ e t → t.ty.Below ty →
      TypesStmt Δ Γ (.assign (.variable name) e) (.assignVariable name ty t)
  | assignProperty {Γ : Scope} {receiver : Expr} {treceiver : TypedExpr} {o : FrameId}
      {name : String} {ty : Ty} {e : Expr} {t : TypedExpr} :
      TypesExpr Δ Γ receiver treceiver → treceiver.ty = .object o →
      (Γ.members Δ o).lookup name = some ty → TypesExpr Δ Γ e t → t.ty.Below ty →
      TypesStmt Δ Γ (.assign (.property receiver name) e) (.assignProperty treceiver name ty t)

/-- The rules for the statements of a block. -/
inductive TypesStmts (Δ : FrameId → List (String × Ty)) :
    Scope → List Stmt → List TypedStmt → Prop where
  | nil {Γ : Scope} : TypesStmts Δ Γ [] []
  | cons {Γ : Scope} {s : Stmt} {t : TypedStmt} {rest : List Stmt} {trest : List TypedStmt} :
      TypesStmt Δ Γ s t → TypesStmts Δ (Γ.bind t.bindings) rest trest →
      TypesStmts Δ Γ (s :: rest) (t :: trest)

end

theorem TypesDeclaration.name_eq {Δ : FrameId → List (String × Ty)} {Γ : Scope} {d : Declaration}
    {t : TypedDeclaration} (h : TypesDeclaration Δ Γ d t) : t.name = d.name := by
  cases h
  rfl

theorem TypesDefinition.name_eq {Δ : FrameId → List (String × Ty)} {Γ : Scope} {this : Option Ty}
    {d : Definition} {t : TypedDefinition} (h : TypesDefinition Δ Γ this d t) :
    t.name = d.name := by
  cases h
  rfl

end ObjectLang
