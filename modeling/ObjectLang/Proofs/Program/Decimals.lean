import ObjectLang.Program.Equality
import ObjectLang.Proofs.Decimal.Interchange

/-!
# Decimals in a program

The decimal literals of a program, and the program with other decimals in their places. Two programs
that differ in nothing but the scales at which decimals are kept are the same tree.
-/

namespace ObjectLang

/-- The decimal that a constant is, if it is one. -/
def Literal.decimals : Literal → List Decimal
  | .decimal d => [d]
  | _ => []

/-- The constant with another decimal in the place of a decimal. -/
def Literal.mapDecimals (g : Decimal → Decimal) : Literal → Literal
  | .decimal d => .decimal (g d)
  | value => value

mutual

/-- The decimal literals in an expression. -/
def Expr.decimals : Expr → List Decimal
  | .literal value => value.decimals
  | .group inner => inner.decimals
  | .binary _ left right => left.decimals ++ right.decimals
  | .variable _ => []
  | .property receiver _ => receiver.decimals
  | .call _ arguments => Expr.decimalsOfList arguments
  | .method receiver _ arguments => receiver.decimals ++ Expr.decimalsOfList arguments
  | .object _ fields methods =>
    Declaration.decimalsOfList fields ++ Definition.decimalsOfList methods

def Expr.decimalsOfList : List Expr → List Decimal
  | [] => []
  | e :: rest => e.decimals ++ Expr.decimalsOfList rest

def Expr.decimalsOfOption : Option Expr → List Decimal
  | none => []
  | some e => e.decimals

/-- The decimal literals in a declaration. -/
def Declaration.decimals : Declaration → List Decimal
  | ⟨_, _, value⟩ => Expr.decimalsOfOption value

def Declaration.decimalsOfList : List Declaration → List Decimal
  | [] => []
  | d :: rest => d.decimals ++ Declaration.decimalsOfList rest

/-- The decimal literals in a function or method. -/
def Definition.decimals : Definition → List Decimal
  | ⟨_, _, _, body⟩ => Stmt.decimalsOfList body

def Definition.decimalsOfList : List Definition → List Decimal
  | [] => []
  | d :: rest => d.decimals ++ Definition.decimalsOfList rest

/-- The decimal literals in a statement. -/
def Stmt.decimals : Stmt → List Decimal
  | .declare d => d.decimals
  | .define d => d.decimals
  | .branch condition thenBody elseBody =>
    condition.decimals ++ (Stmt.decimalsOfList thenBody ++ Stmt.decimalsOfList elseBody)
  | .forEach _ items body => items.decimals ++ Stmt.decimalsOfList body
  | .ret value => Expr.decimalsOfOption value
  | .expression value => value.decimals
  | .assign target value => target.decimals ++ value.decimals

def Stmt.decimalsOfList : List Stmt → List Decimal
  | [] => []
  | s :: rest => s.decimals ++ Stmt.decimalsOfList rest

end

/-- The decimal literals in a program. -/
def Program.decimals (p : Program) : List Decimal := Stmt.decimalsOfList p.statements

mutual

/-- The expression with other decimals. -/
def Expr.mapDecimals (g : Decimal → Decimal) : Expr → Expr
  | .literal value => .literal (value.mapDecimals g)
  | .group inner => .group (inner.mapDecimals g)
  | .binary op left right => .binary op (left.mapDecimals g) (right.mapDecimals g)
  | .variable name => .variable name
  | .property receiver name => .property (receiver.mapDecimals g) name
  | .call name arguments => .call name (Expr.mapDecimalsList g arguments)
  | .method receiver name arguments =>
    .method (receiver.mapDecimals g) name (Expr.mapDecimalsList g arguments)
  | .object name fields methods =>
    .object name (Declaration.mapDecimalsList g fields) (Definition.mapDecimalsList g methods)

def Expr.mapDecimalsList (g : Decimal → Decimal) : List Expr → List Expr
  | [] => []
  | e :: rest => e.mapDecimals g :: Expr.mapDecimalsList g rest

def Expr.mapDecimalsOption (g : Decimal → Decimal) : Option Expr → Option Expr
  | none => none
  | some e => some (e.mapDecimals g)

/-- The declaration with other decimals. -/
def Declaration.mapDecimals (g : Decimal → Decimal) : Declaration → Declaration
  | ⟨name, typeName, value⟩ => ⟨name, typeName, Expr.mapDecimalsOption g value⟩

def Declaration.mapDecimalsList (g : Decimal → Decimal) : List Declaration → List Declaration
  | [] => []
  | d :: rest => d.mapDecimals g :: Declaration.mapDecimalsList g rest

/-- The function or method with other decimals. -/
def Definition.mapDecimals (g : Decimal → Decimal) : Definition → Definition
  | ⟨name, parameters, returnType, body⟩ =>
    ⟨name, parameters, returnType, Stmt.mapDecimalsList g body⟩

def Definition.mapDecimalsList (g : Decimal → Decimal) : List Definition → List Definition
  | [] => []
  | d :: rest => d.mapDecimals g :: Definition.mapDecimalsList g rest

/-- The statement with other decimals. -/
def Stmt.mapDecimals (g : Decimal → Decimal) : Stmt → Stmt
  | .declare d => .declare (d.mapDecimals g)
  | .define d => .define (d.mapDecimals g)
  | .branch condition thenBody elseBody =>
    .branch (condition.mapDecimals g) (Stmt.mapDecimalsList g thenBody)
      (Stmt.mapDecimalsList g elseBody)
  | .forEach name items body =>
    .forEach name (items.mapDecimals g) (Stmt.mapDecimalsList g body)
  | .ret value => .ret (Expr.mapDecimalsOption g value)
  | .expression value => .expression (value.mapDecimals g)
  | .assign target value => .assign (target.mapDecimals g) (value.mapDecimals g)

def Stmt.mapDecimalsList (g : Decimal → Decimal) : List Stmt → List Stmt
  | [] => []
  | s :: rest => s.mapDecimals g :: Stmt.mapDecimalsList g rest

end

/-- The program with other decimals. -/
def Program.mapDecimals (g : Decimal → Decimal) (p : Program) : Program :=
  ⟨Stmt.mapDecimalsList g p.statements⟩

/-! ## The decimals after a change -/

section

variable (g : Decimal → Decimal)

theorem Literal.decimals_mapDecimals (value : Literal) :
    (value.mapDecimals g).decimals = value.decimals.map g := by
  cases value <;> rfl

mutual

theorem Expr.decimals_mapDecimals : ∀ e : Expr, (e.mapDecimals g).decimals = e.decimals.map g
  | .literal value => by
    rw [Expr.mapDecimals, Expr.decimals, Expr.decimals, value.decimals_mapDecimals g]
  | .group inner => by
    rw [Expr.mapDecimals, Expr.decimals, Expr.decimals, inner.decimals_mapDecimals]
  | .binary op left right => by
    rw [Expr.mapDecimals, Expr.decimals, Expr.decimals, left.decimals_mapDecimals,
      right.decimals_mapDecimals, List.map_append]
  | .variable name => by
    rw [Expr.mapDecimals, Expr.decimals, List.map_nil]
  | .property receiver name => by
    rw [Expr.mapDecimals, Expr.decimals, Expr.decimals, receiver.decimals_mapDecimals]
  | .call name arguments => by
    rw [Expr.mapDecimals, Expr.decimals, Expr.decimals, Expr.decimalsOfList_mapDecimals arguments]
  | .method receiver name arguments => by
    rw [Expr.mapDecimals, Expr.decimals, Expr.decimals, receiver.decimals_mapDecimals,
      Expr.decimalsOfList_mapDecimals arguments, List.map_append]
  | .object name fields methods => by
    rw [Expr.mapDecimals, Expr.decimals, Expr.decimals,
      Declaration.decimalsOfList_mapDecimals fields, Definition.decimalsOfList_mapDecimals methods,
      List.map_append]

theorem Expr.decimalsOfList_mapDecimals : ∀ es : List Expr,
    Expr.decimalsOfList (Expr.mapDecimalsList g es) = (Expr.decimalsOfList es).map g
  | [] => by
    rw [Expr.mapDecimalsList, Expr.decimalsOfList, List.map_nil]
  | e :: rest => by
    rw [Expr.mapDecimalsList, Expr.decimalsOfList, Expr.decimalsOfList, e.decimals_mapDecimals,
      Expr.decimalsOfList_mapDecimals rest, List.map_append]

theorem Expr.decimalsOfOption_mapDecimals : ∀ e : Option Expr,
    Expr.decimalsOfOption (Expr.mapDecimalsOption g e) = (Expr.decimalsOfOption e).map g
  | none => by
    rw [Expr.mapDecimalsOption, Expr.decimalsOfOption, List.map_nil]
  | some e => by
    rw [Expr.mapDecimalsOption, Expr.decimalsOfOption, Expr.decimalsOfOption,
      e.decimals_mapDecimals]

theorem Declaration.decimals_mapDecimals :
    ∀ d : Declaration, (d.mapDecimals g).decimals = d.decimals.map g
  | ⟨name, typeName, value⟩ => by
    rw [Declaration.mapDecimals, Declaration.decimals, Declaration.decimals,
      Expr.decimalsOfOption_mapDecimals value]

theorem Declaration.decimalsOfList_mapDecimals : ∀ ds : List Declaration,
    Declaration.decimalsOfList (Declaration.mapDecimalsList g ds) =
      (Declaration.decimalsOfList ds).map g
  | [] => by
    rw [Declaration.mapDecimalsList, Declaration.decimalsOfList, List.map_nil]
  | d :: rest => by
    rw [Declaration.mapDecimalsList, Declaration.decimalsOfList, Declaration.decimalsOfList,
      d.decimals_mapDecimals, Declaration.decimalsOfList_mapDecimals rest, List.map_append]

theorem Definition.decimals_mapDecimals :
    ∀ d : Definition, (d.mapDecimals g).decimals = d.decimals.map g
  | ⟨name, parameters, returnType, body⟩ => by
    rw [Definition.mapDecimals, Definition.decimals, Definition.decimals,
      Stmt.decimalsOfList_mapDecimals body]

theorem Definition.decimalsOfList_mapDecimals : ∀ ds : List Definition,
    Definition.decimalsOfList (Definition.mapDecimalsList g ds) =
      (Definition.decimalsOfList ds).map g
  | [] => by
    rw [Definition.mapDecimalsList, Definition.decimalsOfList, List.map_nil]
  | d :: rest => by
    rw [Definition.mapDecimalsList, Definition.decimalsOfList, Definition.decimalsOfList,
      d.decimals_mapDecimals, Definition.decimalsOfList_mapDecimals rest, List.map_append]

theorem Stmt.decimals_mapDecimals : ∀ s : Stmt, (s.mapDecimals g).decimals = s.decimals.map g
  | .declare d => by
    rw [Stmt.mapDecimals, Stmt.decimals, Stmt.decimals, d.decimals_mapDecimals]
  | .define d => by
    rw [Stmt.mapDecimals, Stmt.decimals, Stmt.decimals, d.decimals_mapDecimals]
  | .branch condition thenBody elseBody => by
    rw [Stmt.mapDecimals, Stmt.decimals, Stmt.decimals, condition.decimals_mapDecimals,
      Stmt.decimalsOfList_mapDecimals thenBody, Stmt.decimalsOfList_mapDecimals elseBody,
      List.map_append, List.map_append]
  | .forEach name items body => by
    rw [Stmt.mapDecimals, Stmt.decimals, Stmt.decimals, items.decimals_mapDecimals,
      Stmt.decimalsOfList_mapDecimals body, List.map_append]
  | .ret value => by
    rw [Stmt.mapDecimals, Stmt.decimals, Stmt.decimals, Expr.decimalsOfOption_mapDecimals value]
  | .expression value => by
    rw [Stmt.mapDecimals, Stmt.decimals, Stmt.decimals, value.decimals_mapDecimals]
  | .assign target value => by
    rw [Stmt.mapDecimals, Stmt.decimals, Stmt.decimals, target.decimals_mapDecimals,
      value.decimals_mapDecimals, List.map_append]

theorem Stmt.decimalsOfList_mapDecimals : ∀ body : List Stmt,
    Stmt.decimalsOfList (Stmt.mapDecimalsList g body) = (Stmt.decimalsOfList body).map g
  | [] => by
    rw [Stmt.mapDecimalsList, Stmt.decimalsOfList, List.map_nil]
  | s :: rest => by
    rw [Stmt.mapDecimalsList, Stmt.decimalsOfList, Stmt.decimalsOfList, s.decimals_mapDecimals,
      Stmt.decimalsOfList_mapDecimals rest, List.map_append]

end

theorem Program.decimals_mapDecimals (p : Program) :
    (p.mapDecimals g).decimals = p.decimals.map g :=
  Stmt.decimalsOfList_mapDecimals g p.statements

end

/-! ## Programs that keep their decimals -/

section

variable {g : Decimal → Decimal}

theorem Literal.mapDecimals_eq_self_iff (value : Literal) :
    value.mapDecimals g = value ↔ ∀ d ∈ value.decimals, g d = d := by
  cases value <;> simp [mapDecimals, decimals]

mutual

theorem Expr.mapDecimals_eq_self_iff :
    ∀ e : Expr, e.mapDecimals g = e ↔ ∀ d ∈ e.decimals, g d = d
  | .literal value => by
    rw [Expr.mapDecimals, Expr.decimals, Expr.literal.injEq, value.mapDecimals_eq_self_iff]
  | .group inner => by
    rw [Expr.mapDecimals, Expr.decimals, Expr.group.injEq, inner.mapDecimals_eq_self_iff]
  | .binary op left right => by
    rw [Expr.mapDecimals, Expr.decimals, Expr.binary.injEq, left.mapDecimals_eq_self_iff,
      right.mapDecimals_eq_self_iff, List.forall_mem_append]
    simp
  | .variable name => by simp [Expr.mapDecimals, Expr.decimals]
  | .property receiver name => by
    rw [Expr.mapDecimals, Expr.decimals, Expr.property.injEq, receiver.mapDecimals_eq_self_iff]
    simp
  | .call name arguments => by
    rw [Expr.mapDecimals, Expr.decimals, Expr.call.injEq, Expr.mapDecimalsList_eq_self_iff
      arguments]
    simp
  | .method receiver name arguments => by
    rw [Expr.mapDecimals, Expr.decimals, Expr.method.injEq, receiver.mapDecimals_eq_self_iff,
      Expr.mapDecimalsList_eq_self_iff arguments, List.forall_mem_append]
    simp
  | .object name fields methods => by
    rw [Expr.mapDecimals, Expr.decimals, Expr.object.injEq, Declaration.mapDecimalsList_eq_self_iff
      fields, Definition.mapDecimalsList_eq_self_iff methods, List.forall_mem_append]
    simp

theorem Expr.mapDecimalsList_eq_self_iff : ∀ es : List Expr,
    Expr.mapDecimalsList g es = es ↔ ∀ d ∈ Expr.decimalsOfList es, g d = d
  | [] => by simp [Expr.mapDecimalsList, Expr.decimalsOfList]
  | e :: rest => by
    rw [Expr.mapDecimalsList, Expr.decimalsOfList, List.cons.injEq, e.mapDecimals_eq_self_iff,
      Expr.mapDecimalsList_eq_self_iff rest, List.forall_mem_append]

theorem Expr.mapDecimalsOption_eq_self_iff : ∀ e : Option Expr,
    Expr.mapDecimalsOption g e = e ↔ ∀ d ∈ Expr.decimalsOfOption e, g d = d
  | none => by simp [Expr.mapDecimalsOption, Expr.decimalsOfOption]
  | some e => by
    rw [Expr.mapDecimalsOption, Expr.decimalsOfOption, Option.some.injEq, e.mapDecimals_eq_self_iff]

theorem Declaration.mapDecimals_eq_self_iff :
    ∀ d : Declaration, d.mapDecimals g = d ↔ ∀ d' ∈ d.decimals, g d' = d'
  | ⟨name, typeName, value⟩ => by
    rw [Declaration.mapDecimals, Declaration.decimals, Declaration.mk.injEq,
      Expr.mapDecimalsOption_eq_self_iff value]
    simp

theorem Declaration.mapDecimalsList_eq_self_iff : ∀ ds : List Declaration,
    Declaration.mapDecimalsList g ds = ds ↔ ∀ d ∈ Declaration.decimalsOfList ds, g d = d
  | [] => by simp [Declaration.mapDecimalsList, Declaration.decimalsOfList]
  | d :: rest => by
    rw [Declaration.mapDecimalsList, Declaration.decimalsOfList, List.cons.injEq,
      d.mapDecimals_eq_self_iff, Declaration.mapDecimalsList_eq_self_iff rest,
      List.forall_mem_append]

theorem Definition.mapDecimals_eq_self_iff :
    ∀ d : Definition, d.mapDecimals g = d ↔ ∀ d' ∈ d.decimals, g d' = d'
  | ⟨name, parameters, returnType, body⟩ => by
    rw [Definition.mapDecimals, Definition.decimals, Definition.mk.injEq,
      Stmt.mapDecimalsList_eq_self_iff body]
    simp

theorem Definition.mapDecimalsList_eq_self_iff : ∀ ds : List Definition,
    Definition.mapDecimalsList g ds = ds ↔ ∀ d ∈ Definition.decimalsOfList ds, g d = d
  | [] => by simp [Definition.mapDecimalsList, Definition.decimalsOfList]
  | d :: rest => by
    rw [Definition.mapDecimalsList, Definition.decimalsOfList, List.cons.injEq,
      d.mapDecimals_eq_self_iff, Definition.mapDecimalsList_eq_self_iff rest,
      List.forall_mem_append]

theorem Stmt.mapDecimals_eq_self_iff :
    ∀ s : Stmt, s.mapDecimals g = s ↔ ∀ d ∈ s.decimals, g d = d
  | .declare d => by
    rw [Stmt.mapDecimals, Stmt.decimals, Stmt.declare.injEq, d.mapDecimals_eq_self_iff]
  | .define d => by
    rw [Stmt.mapDecimals, Stmt.decimals, Stmt.define.injEq, d.mapDecimals_eq_self_iff]
  | .branch condition thenBody elseBody => by
    rw [Stmt.mapDecimals, Stmt.decimals, Stmt.branch.injEq, condition.mapDecimals_eq_self_iff,
      Stmt.mapDecimalsList_eq_self_iff thenBody, Stmt.mapDecimalsList_eq_self_iff elseBody,
      List.forall_mem_append, List.forall_mem_append]
  | .forEach name items body => by
    rw [Stmt.mapDecimals, Stmt.decimals, Stmt.forEach.injEq, items.mapDecimals_eq_self_iff,
      Stmt.mapDecimalsList_eq_self_iff body, List.forall_mem_append]
    simp
  | .ret value => by
    rw [Stmt.mapDecimals, Stmt.decimals, Stmt.ret.injEq, Expr.mapDecimalsOption_eq_self_iff value]
  | .expression value => by
    rw [Stmt.mapDecimals, Stmt.decimals, Stmt.expression.injEq, value.mapDecimals_eq_self_iff]
  | .assign target value => by
    rw [Stmt.mapDecimals, Stmt.decimals, Stmt.assign.injEq, target.mapDecimals_eq_self_iff,
      value.mapDecimals_eq_self_iff, List.forall_mem_append]

theorem Stmt.mapDecimalsList_eq_self_iff : ∀ body : List Stmt,
    Stmt.mapDecimalsList g body = body ↔ ∀ d ∈ Stmt.decimalsOfList body, g d = d
  | [] => by simp [Stmt.mapDecimalsList, Stmt.decimalsOfList]
  | s :: rest => by
    rw [Stmt.mapDecimalsList, Stmt.decimalsOfList, List.cons.injEq, s.mapDecimals_eq_self_iff,
      Stmt.mapDecimalsList_eq_self_iff rest, List.forall_mem_append]

end

/-- A program keeps its form under a change of decimals exactly if its decimals do. -/
theorem Program.mapDecimals_eq_self_iff (p : Program) :
    p.mapDecimals g = p ↔ ∀ d ∈ p.decimals, g d = d := by
  rw [Program.mapDecimals, decimals, ← Stmt.mapDecimalsList_eq_self_iff]
  constructor
  · intro h
    exact congrArg Program.statements h
  · intro h
    rw [h]

end

/-! ## Programs that keep their numbers -/

section

variable {g : Decimal → Decimal}

theorem Literal.same_mapDecimals (hg : ∀ d, (g d).sameNumber d = true)
    (value : Literal) : (value.mapDecimals g).same value = true := by
  cases value with
  | decimal d => exact hg d
  | _ => simp [mapDecimals, same]

mutual

theorem Expr.same_mapDecimals (hg : ∀ d, (g d).sameNumber d = true) :
    ∀ e : Expr, (e.mapDecimals g).same e = true
  | .literal value => by
    rw [Expr.mapDecimals, Expr.same, value.same_mapDecimals hg]
  | .group inner => by
    rw [Expr.mapDecimals, Expr.same, inner.same_mapDecimals hg]
  | .binary op left right => by
    rw [Expr.mapDecimals, Expr.same, left.same_mapDecimals hg, right.same_mapDecimals hg]
    simp
  | .variable name => by simp [Expr.mapDecimals, Expr.same]
  | .property receiver name => by
    rw [Expr.mapDecimals, Expr.same, receiver.same_mapDecimals hg]
    simp
  | .call name arguments => by
    rw [Expr.mapDecimals, Expr.same, Expr.sameList_mapDecimalsList hg arguments]
    simp
  | .method receiver name arguments => by
    rw [Expr.mapDecimals, Expr.same, receiver.same_mapDecimals hg, Expr.sameList_mapDecimalsList hg
      arguments]
    simp
  | .object name fields methods => by
    rw [Expr.mapDecimals, Expr.same, Declaration.sameList_mapDecimalsList hg fields,
      Definition.sameList_mapDecimalsList hg methods]
    simp

theorem Expr.sameList_mapDecimalsList (hg : ∀ d, (g d).sameNumber d = true) :
    ∀ es : List Expr,
    Expr.sameList (Expr.mapDecimalsList g es) es = true
  | [] => by
    rw [Expr.mapDecimalsList, Expr.sameList]
  | e :: rest => by
    rw [Expr.mapDecimalsList, Expr.sameList, e.same_mapDecimals hg, Expr.sameList_mapDecimalsList hg
      rest]
    rfl

theorem Expr.sameOption_mapDecimalsOption (hg : ∀ d, (g d).sameNumber d = true) :
    ∀ e : Option Expr,
    Expr.sameOption (Expr.mapDecimalsOption g e) e = true
  | none => by
    rw [Expr.mapDecimalsOption, Expr.sameOption]
  | some e => by
    rw [Expr.mapDecimalsOption, Expr.sameOption, e.same_mapDecimals hg]

theorem Declaration.same_mapDecimals (hg : ∀ d, (g d).sameNumber d = true) :
    ∀ d : Declaration, (d.mapDecimals g).same d = true
  | ⟨name, typeName, value⟩ => by
    rw [Declaration.mapDecimals, Declaration.same, Expr.sameOption_mapDecimalsOption hg value]
    simp

theorem Declaration.sameList_mapDecimalsList (hg : ∀ d, (g d).sameNumber d = true) :
    ∀ ds : List Declaration,
    Declaration.sameList (Declaration.mapDecimalsList g ds) ds = true
  | [] => by
    rw [Declaration.mapDecimalsList, Declaration.sameList]
  | d :: rest => by
    rw [Declaration.mapDecimalsList, Declaration.sameList, d.same_mapDecimals hg,
      Declaration.sameList_mapDecimalsList hg rest]
    rfl

theorem Definition.same_mapDecimals (hg : ∀ d, (g d).sameNumber d = true) :
    ∀ d : Definition, (d.mapDecimals g).same d = true
  | ⟨name, parameters, returnType, body⟩ => by
    rw [Definition.mapDecimals, Definition.same, Stmt.sameList_mapDecimalsList hg body]
    simp

theorem Definition.sameList_mapDecimalsList (hg : ∀ d, (g d).sameNumber d = true) :
    ∀ ds : List Definition,
    Definition.sameList (Definition.mapDecimalsList g ds) ds = true
  | [] => by
    rw [Definition.mapDecimalsList, Definition.sameList]
  | d :: rest => by
    rw [Definition.mapDecimalsList, Definition.sameList, d.same_mapDecimals hg,
      Definition.sameList_mapDecimalsList hg rest]
    rfl

theorem Stmt.same_mapDecimals (hg : ∀ d, (g d).sameNumber d = true) :
    ∀ s : Stmt, (s.mapDecimals g).same s = true
  | .declare d => by
    rw [Stmt.mapDecimals, Stmt.same, d.same_mapDecimals hg]
  | .define d => by
    rw [Stmt.mapDecimals, Stmt.same, d.same_mapDecimals hg]
  | .branch condition thenBody elseBody => by
    rw [Stmt.mapDecimals, Stmt.same, condition.same_mapDecimals hg, Stmt.sameList_mapDecimalsList hg
      thenBody, Stmt.sameList_mapDecimalsList hg elseBody]
    rfl
  | .forEach name items body => by
    rw [Stmt.mapDecimals, Stmt.same, items.same_mapDecimals hg, Stmt.sameList_mapDecimalsList hg
      body]
    simp
  | .ret value => by
    rw [Stmt.mapDecimals, Stmt.same, Expr.sameOption_mapDecimalsOption hg value]
  | .expression value => by
    rw [Stmt.mapDecimals, Stmt.same, value.same_mapDecimals hg]
  | .assign target value => by
    rw [Stmt.mapDecimals, Stmt.same, target.same_mapDecimals hg, value.same_mapDecimals hg]
    rfl

theorem Stmt.sameList_mapDecimalsList (hg : ∀ d, (g d).sameNumber d = true) :
    ∀ body : List Stmt,
    Stmt.sameList (Stmt.mapDecimalsList g body) body = true
  | [] => by
    rw [Stmt.mapDecimalsList, Stmt.sameList]
  | s :: rest => by
    rw [Stmt.mapDecimalsList, Stmt.sameList, s.same_mapDecimals hg, Stmt.sameList_mapDecimalsList hg
      rest]
    rfl

end

/-- A program is the same tree when its decimals change but the numbers that they stand for do not.
-/
theorem Program.same_mapDecimals (hg : ∀ d, (g d).sameNumber d = true)
    (p : Program) : (p.mapDecimals g).same p = true :=
  Stmt.sameList_mapDecimalsList hg p.statements

end

end ObjectLang
