import ObjectLang.Proofs.Check.Scoping
import ObjectLang.Proofs.Program.Isolated
import ObjectLang.Proofs.Program.Untyped

/-!
# Typed programs mirror programs

A typed program without its types is a program again: a parameter, a variable or a function loses
its type, and an assignment gets the target back that it was made from. The typed program that the
checker returns is in this sense the program that it was given, up to the names of declared types,
which the types have taken the place of. In particular every method goes with its own body,
although the checker visits the methods of an object twice. -/

namespace ObjectLang

/-- The parameter without its type. -/
def TypedParameter.erase (p : TypedParameter) : Parameter := ⟨p.name, none⟩

mutual

/-- The expression without types. -/
def TypedExpr.erase : TypedExpr → Expr
  | .literal value _ => .literal value
  | .group inner => .group inner.erase
  | .binary op left right _ => .binary op left.erase right.erase
  | .variable name _ => .variable name
  | .property receiver name _ => .property receiver.erase name
  | .call name arguments _ => .call name (eraseExprs arguments)
  | .method receiver name arguments _ => .method receiver.erase name (eraseExprs arguments)
  | .object name fields methods _ => .object name (eraseFields fields) (eraseMethods methods)

/-- The expressions without types. -/
def eraseExprs : List TypedExpr → List Expr
  | [] => []
  | e :: rest => e.erase :: eraseExprs rest

/-- The expression without types, if there is one. -/
def eraseOption : Option TypedExpr → Option Expr
  | none => none
  | some e => some e.erase

/-- The declaration without types. -/
def TypedDeclaration.erase : TypedDeclaration → Declaration
  | ⟨name, _, value⟩ => ⟨name, none, eraseOption value⟩

/-- The fields without types. -/
def eraseFields : List TypedDeclaration → List Declaration
  | [] => []
  | d :: rest => d.erase :: eraseFields rest

/-- The function or method without types. -/
def TypedDefinition.erase : TypedDefinition → Definition
  | ⟨name, parameters, _, body⟩ =>
    ⟨name, parameters.map TypedParameter.erase, none, eraseStmts body⟩

/-- The methods without types. -/
def eraseMethods : List TypedDefinition → List Definition
  | [] => []
  | d :: rest => d.erase :: eraseMethods rest

/-- The statement without types. -/
def TypedStmt.erase : TypedStmt → Stmt
  | .declare d => .declare d.erase
  | .define d => .define d.erase
  | .branch condition thenBody elseBody =>
    .branch condition.erase (eraseStmts thenBody) (eraseStmts elseBody)
  | .forEach name _ items body => .forEach name items.erase (eraseStmts body)
  | .ret value => .ret (eraseOption value)
  | .expression value => .expression value.erase
  | .assignVariable name _ value => .assign (.variable name) value.erase
  | .assignProperty receiver name _ value => .assign (.property receiver.erase name) value.erase

/-- The statements without types. -/
def eraseStmts : List TypedStmt → List Stmt
  | [] => []
  | s :: rest => s.erase :: eraseStmts rest

end

/-- The program without types. -/
def TypedProgram.erase (p : TypedProgram) : Program := ⟨eraseStmts p.statements⟩

namespace Check

/-- Only the names of parameters are left without types. -/
theorem map_erase_parameters {typed : List TypedParameter} {ps : List Parameter}
    (h : typed.map (·.name) = ps.map (·.name)) :
    typed.map TypedParameter.erase = ps.map Parameter.untyped := by
  have herase : typed.map TypedParameter.erase = (typed.map (·.name)).map (⟨·, none⟩) := by
    rw [List.map_map]
    rfl
  have huntyped : ps.map Parameter.untyped = (ps.map (·.name)).map (⟨·, none⟩) := by
    rw [List.map_map]
    rfl
  rw [herase, huntyped, h]

mutual

theorem erase_expr {f : FrameId} : ∀ {s t : Store Ty} {te : TypedExpr} (e : Expr),
    expr f e s = .ok te t → te.erase = e.untyped
  | s, t, te, .literal value, h => by
    rw [expr] at h
    cases h
    rfl
  | s, t, te, .group inner, h => by
    simp only [expr, bind_run_eq_ok_iff, pure_run_eq_ok_iff] at h
    obtain ⟨tinner, s₁, hinner, rfl, -⟩ := h
    rw [TypedExpr.erase, erase_expr inner hinner, Expr.untyped]
  | s, t, te, .binary op left right, h => by
    simp only [expr, bind_run_eq_ok_iff, pure_run_eq_ok_iff] at h
    obtain ⟨tleft, s₁, hleft, tright, s₂, hright, ty, s₃, -, rfl, -⟩ := h
    rw [TypedExpr.erase, erase_expr left hleft, erase_expr right hright, Expr.untyped]
  | s, t, te, .variable name, h => by
    simp only [expr, bind_run_eq_ok_iff, pure_run_eq_ok_iff] at h
    obtain ⟨ty, s₁, -, rfl, -⟩ := h
    rfl
  | s, t, te, .property receiver name, h => by
    simp only [expr, bind_run_eq_ok_iff, pure_run_eq_ok_iff] at h
    obtain ⟨treceiver, s₁, hreceiver, members, s₂, -, ty, s₃, -, rfl, -⟩ := h
    rw [TypedExpr.erase, erase_expr receiver hreceiver, Expr.untyped]
  | s, t, te, .call name arguments, h => by
    simp only [expr, bind_run_eq_ok_iff, pure_run_eq_ok_iff] at h
    obtain ⟨target, s₁, -, x, s₂, hcallable, targuments, s₃, harguments, rfl, -⟩ := h
    obtain ⟨-, hlength, rfl⟩ := callable_eq_ok hcallable
    rw [TypedExpr.erase, erase_exprs arguments hlength harguments, Expr.untyped]
  | s, t, te, .method receiver name arguments, h => by
    simp only [expr, bind_run_eq_ok_iff, pure_run_eq_ok_iff] at h
    obtain ⟨treceiver, s₁, hreceiver, members, s₂, -, target, s₃, -, x, s₄, hcallable,
      targuments, s₅, harguments, rfl, -⟩ := h
    obtain ⟨-, hlength, rfl⟩ := callable_eq_ok hcallable
    rw [TypedExpr.erase, erase_expr receiver hreceiver,
      erase_exprs arguments hlength harguments, Expr.untyped]
  | s, t, te, .object name fields methods, h => by
    simp only [expr, bind_run_eq_ok_iff, pure_run_eq_ok_iff] at h
    obtain ⟨_, s₁, -, members, s₂, -, tfields, s₃, hfields, signatures, s₄, hsignatures, tmethods,
      s₅, hmethods, rfl, -⟩ := h
    rw [TypedExpr.erase, erase_fields fields hfields,
      erase_methods methods (registerMethods_parameters hsignatures) hmethods, Expr.untyped]

/-- No argument is dropped, since there are as many parameters. -/
theorem erase_exprs {f : FrameId} : ∀ {s t : Store Ty} {tes : List TypedExpr} (es : List Expr)
    {params : List Ty}, params.length = es.length → exprs f es params s = .ok tes t →
    eraseExprs tes = untypedExprs es
  | s, t, tes, [], params, _, h => by
    rw [exprs.eq_def] at h
    cases h
    rfl
  | s, t, tes, e :: rest, param :: params, hlength, h => by
    simp only [exprs, bind_run_eq_ok_iff, pure_run_eq_ok_iff] at h
    obtain ⟨te, s₁, he, _, s₂, -, trest, s₃, hrest, rfl, -⟩ := h
    rw [eraseExprs, erase_expr e he, erase_exprs rest (Nat.succ.inj hlength) hrest, untypedExprs]

theorem erase_optionalExpr {f : FrameId} : ∀ {s t : Store Ty} {te : Option TypedExpr}
    (e : Option Expr), optionalExpr f e s = .ok te t → eraseOption te = untypedOption e
  | s, t, te, none, h => by
    rw [optionalExpr] at h
    cases h
    rfl
  | s, t, te, some e, h => by
    simp only [optionalExpr, bind_run_eq_ok_iff, pure_run_eq_ok_iff] at h
    obtain ⟨te', s₁, he, rfl, -⟩ := h
    rw [eraseOption, erase_expr e he, untypedOption]

theorem erase_declaration {f : FrameId} : ∀ {s t : Store Ty} {td : TypedDeclaration}
    (d : Declaration), declaration f d s = .ok td t → td.erase = d.untyped
  | s, t, td, ⟨name, typeName, value⟩, h => by
    simp only [declaration, bind_run_eq_ok_iff, pure_run_eq_ok_iff] at h
    obtain ⟨declared, s₁, -, v, s₂, hvalue, ty, s₃, -, rfl, -⟩ := h
    rw [TypedDeclaration.erase, erase_optionalExpr value hvalue, Declaration.untyped]

theorem erase_fields {f members : FrameId} : ∀ {s t : Store Ty} {tfields : List TypedDeclaration}
    (fields : List Declaration), objectFields f members fields s = .ok tfields t →
    eraseFields tfields = untypedFields fields
  | s, t, tfields, [], h => by
    rw [objectFields] at h
    cases h
    rfl
  | s, t, tfields, d :: rest, h => by
    simp only [objectFields, bind_run_eq_ok_iff, pure_run_eq_ok_iff] at h
    obtain ⟨_, s₁, -, td, s₂, hd, _, s₃, -, trest, s₄, hrest, rfl, -⟩ := h
    rw [eraseFields, erase_declaration d hd, erase_fields rest hrest, untypedFields]

/-- Each method is paired with the signature that was made from it. -/
theorem erase_methods {f : FrameId} {this : Ty} : ∀ {s t : Store Ty}
    {tmethods : List TypedDefinition} (methods : List Definition) {signatures : List Signature},
    signatures.map (·.parameters.map (·.name)) = methods.map (·.parameters.map (·.name)) →
    objectMethods f this methods signatures s = .ok tmethods t →
    eraseMethods tmethods = untypedMethods methods
  | s, t, tmethods, [], signatures, _, h => by
    rw [objectMethods.eq_def] at h
    cases h
    rfl
  | s, t, tmethods, d :: rest, signature :: signatures, hparams, h => by
    obtain ⟨hparam, hparams⟩ := List.cons.inj hparams
    simp only [objectMethods, bind_run_eq_ok_iff, pure_run_eq_ok_iff] at h
    obtain ⟨td, s₁, hd, trest, s₂, hrest, rfl, -⟩ := h
    rw [eraseMethods, erase_definition d hparam hd, erase_methods rest hparams hrest,
      untypedMethods]

theorem erase_definition {f : FrameId} {this : Option Ty} : ∀ {s t : Store Ty}
    {td : TypedDefinition} (d : Definition) {signature : Signature},
    signature.parameters.map (·.name) = d.parameters.map (·.name) →
    definition f this d signature s = .ok td t → td.erase = d.untyped
  | s, t, td, ⟨name, parameters, returnType, body⟩, signature, hparams, h => by
    simp only [definition, bind_run_eq_ok_iff, pure_run_eq_ok_iff] at h
    obtain ⟨frame, s₁, -, _, s₂, -, tbody, s₃, hbody, rfl, -⟩ := h
    rw [TypedDefinition.erase, map_erase_parameters hparams, erase_stmts body hbody,
      Definition.untyped]

theorem erase_stmt {f : FrameId} : ∀ {s t : Store Ty} {ts : TypedStmt} (st : Stmt),
    stmt f st s = .ok ts t → ts.erase = st.untyped
  | s, t, ts, .declare d, h => by
    simp only [stmt, bind_run_eq_ok_iff, pure_run_eq_ok_iff] at h
    obtain ⟨_, s₁, -, td, s₂, hd, _, s₃, -, rfl, -⟩ := h
    rw [TypedStmt.erase, erase_declaration d hd, Stmt.untyped]
  | s, t, ts, .define d, h => by
    simp only [stmt, bind_run_eq_ok_iff, pure_run_eq_ok_iff] at h
    obtain ⟨_, s₁, -, signature, s₂, hsignature, _, s₃, -, td, s₄, hd, rfl, -⟩ := h
    rw [TypedStmt.erase, erase_definition d (signature_names hsignature) hd, Stmt.untyped]
  | s, t, ts, .branch condition thenBody elseBody, h => by
    simp only [stmt, bind_run_eq_ok_iff, pure_run_eq_ok_iff] at h
    obtain ⟨tcondition, s₁, hcondition, _, s₂, -, _, s₃, -, tthen, s₄, hthen, _, s₅, -, telse,
      s₆, helse, rfl, -⟩ := h
    rw [TypedStmt.erase, erase_expr condition hcondition, erase_stmts thenBody hthen,
      erase_stmts elseBody helse, Stmt.untyped]
  | s, t, ts, .forEach name items body, h => by
    simp only [stmt, bind_run_eq_ok_iff, pure_run_eq_ok_iff] at h
    obtain ⟨titems, s₁, hitems, _, s₂, -, _, s₃, -, _, s₄, -, tbody, s₅, hbody, rfl, -⟩ := h
    rw [TypedStmt.erase, erase_expr items hitems, erase_stmts body hbody, Stmt.untyped]
  | s, t, ts, .ret value, h => by
    simp only [stmt, bind_run_eq_ok_iff] at h
    obtain ⟨returns, s₁, -, h⟩ := h
    cases returns with
    | none => cases h
    | some ty =>
      simp only [bind_run_eq_ok_iff, pure_run_eq_ok_iff] at h
      obtain ⟨tvalue, s₂, hvalue, _, s₃, -, rfl, -⟩ := h
      rw [TypedStmt.erase, erase_optionalExpr value hvalue, Stmt.untyped]
  | s, t, ts, .expression value, h => by
    simp only [stmt, bind_run_eq_ok_iff, pure_run_eq_ok_iff] at h
    obtain ⟨tvalue, s₁, hvalue, rfl, -⟩ := h
    rw [TypedStmt.erase, erase_expr value hvalue, Stmt.untyped]
  | s, t, ts, .assign (.variable name) value, h => by
    simp only [stmt, bind_run_eq_ok_iff, pure_run_eq_ok_iff] at h
    obtain ⟨ty, s₁, -, tvalue, s₂, hvalue, _, s₃, -, rfl, -⟩ := h
    rw [TypedStmt.erase, erase_expr value hvalue, Stmt.untyped, Expr.untyped]
  | s, t, ts, .assign (.property receiver name) value, h => by
    simp only [stmt, bind_run_eq_ok_iff, pure_run_eq_ok_iff] at h
    obtain ⟨treceiver, s₁, hreceiver, members, s₂, -, ty, s₃, -, tvalue, s₄, hvalue, _, s₅, -,
      rfl, -⟩ := h
    rw [TypedStmt.erase, erase_expr receiver hreceiver, erase_expr value hvalue, Stmt.untyped,
      Expr.untyped]
  | s, t, ts, .assign (.literal _) _, h | s, t, ts, .assign (.group _) _, h
  | s, t, ts, .assign (.binary _ _ _) _, h | s, t, ts, .assign (.call _ _) _, h
  | s, t, ts, .assign (.method _ _ _) _, h | s, t, ts, .assign (.object _ _ _) _, h => by
    rw [stmt.eq_def] at h
    cases h

theorem erase_stmts {f : FrameId} : ∀ {s t : Store Ty} {tbody : List TypedStmt}
    (body : List Stmt), stmts f body s = .ok tbody t → eraseStmts tbody = untypedStmts body
  | s, t, tbody, [], h => by
    rw [stmts] at h
    cases h
    rfl
  | s, t, tbody, st :: rest, h => by
    simp only [stmts, bind_run_eq_ok_iff, pure_run_eq_ok_iff] at h
    obtain ⟨ts, s₁, hst, trest, s₂, hrest, rfl, -⟩ := h
    rw [eraseStmts, erase_stmt st hst, erase_stmts rest hrest, untypedStmts]

end

end Check

/-- What the checker makes of an accepted program is that program: apart from the types, it has the
same statements, expressions, fields and methods in the same places. -/
theorem Program.erase_eq_untyped {p : Program} {f : FrameId} {types types' : Store Ty}
    {typed : TypedProgram} (h : Check.program f p types = .ok typed types') :
    typed.erase = p.untyped := by
  unfold Check.program at h
  simp only [bind_run_eq_ok_iff, pure_run_eq_ok_iff] at h
  obtain ⟨tbody, types₁, hbody, rfl, -⟩ := h
  rw [TypedProgram.erase, Check.erase_stmts p.statements hbody, Program.untyped]

/-- An account with two methods of different form, a loop that pays into it, and assignments to a
variable and to a member. -/
def Program.saving : Program :=
  ⟨[.declare ⟨"rate", some "Integer", some (.literal (.integer 2))⟩,
    .declare ⟨"account", none, some (.object (some "Account")
      [⟨"balance", some "Integer", some (.literal (.integer 0))⟩]
      [⟨"balanceAfter", [⟨"years", some "Integer"⟩], some "Integer",
         [.ret (some (.binary .mul (.property (.variable "this") "balance")
           (.group (.binary .add (.variable "years") (.variable "rate")))))]⟩,
       ⟨"deposit", [⟨"amount", some "Integer"⟩, ⟨"note", none⟩], none,
         [.branch (.binary .less (.variable "amount") (.literal (.integer 0)))
           [.expression (.call "print" [.variable "note"])]
           [.assign (.property (.variable "this") "balance")
             (.binary .add (.property (.variable "this") "balance") (.variable "amount"))]]⟩])⟩,
    .forEach "i" (.call "range" [.literal (.integer 1), .literal (.integer 3)])
      [.expression (.method (.variable "account") "deposit"
        [.variable "i", .literal (.string "payment")])],
    .assign (.variable "rate") (.method (.variable "account") "balanceAfter" [.variable "rate"])]⟩

theorem Program.erase_eq_untyped_saving :
    ∃ typed types, Check.program 1 saving isolatedTypes = .ok typed types ∧
      typed.erase = saving.untyped := by
  have hok : (Check.program 1 saving isolatedTypes).isOk = true := by decide +kernel
  obtain ⟨typed, types, h⟩ := EStateM.Result.isOk_iff.mp hok
  exact ⟨typed, types, h, erase_eq_untyped h⟩

end ObjectLang
