import ObjectLang.Check.Checker
import ObjectLang.Proofs.Program.Trim

/-!
# Checking without parentheses

The checker looks through parentheses: what it makes of a program without them is what it makes of
the program, without them. The targets of assignments are the exception, since what stands in
parentheses is no target. -/

namespace ObjectLang

mutual

/-- The typed expression without parentheses. -/
def TypedExpr.ungrouped : TypedExpr → TypedExpr
  | .literal value ty => .literal value ty
  | .group inner => inner.ungrouped
  | .binary op left right ty => .binary op left.ungrouped right.ungrouped ty
  | .variable name ty => .variable name ty
  | .property receiver name ty => .property receiver.ungrouped name ty
  | .call name arguments ty => .call name (ungroupedExprs arguments) ty
  | .method receiver name arguments ty =>
    .method receiver.ungrouped name (ungroupedExprs arguments) ty
  | .object name fields methods ty =>
    .object name (ungroupedFields fields) (ungroupedMethods methods) ty

/-- The typed expressions without parentheses. -/
def ungroupedExprs : List TypedExpr → List TypedExpr
  | [] => []
  | e :: rest => e.ungrouped :: ungroupedExprs rest

/-- The typed expression without parentheses, if there is one. -/
def ungroupedOption : Option TypedExpr → Option TypedExpr
  | none => none
  | some e => some e.ungrouped

/-- The typed declaration without parentheses. -/
def TypedDeclaration.ungrouped : TypedDeclaration → TypedDeclaration
  | ⟨name, ty, value⟩ => ⟨name, ty, ungroupedOption value⟩

/-- The typed fields without parentheses. -/
def ungroupedFields : List TypedDeclaration → List TypedDeclaration
  | [] => []
  | d :: rest => d.ungrouped :: ungroupedFields rest

/-- The typed function or method without parentheses. -/
def TypedDefinition.ungrouped : TypedDefinition → TypedDefinition
  | ⟨name, parameters, returns, body⟩ => ⟨name, parameters, returns, ungroupedStmts body⟩

/-- The typed methods without parentheses. -/
def ungroupedMethods : List TypedDefinition → List TypedDefinition
  | [] => []
  | d :: rest => d.ungrouped :: ungroupedMethods rest

/-- The typed statement without parentheses. -/
def TypedStmt.ungrouped : TypedStmt → TypedStmt
  | .declare d => .declare d.ungrouped
  | .define d => .define d.ungrouped
  | .branch condition thenBody elseBody =>
    .branch condition.ungrouped (ungroupedStmts thenBody) (ungroupedStmts elseBody)
  | .forEach name ty items body => .forEach name ty items.ungrouped (ungroupedStmts body)
  | .ret value => .ret (ungroupedOption value)
  | .expression value => .expression value.ungrouped
  | .assignVariable name ty value => .assignVariable name ty value.ungrouped
  | .assignProperty receiver name ty value =>
    .assignProperty receiver.ungrouped name ty value.ungrouped

/-- The typed statements without parentheses. -/
def ungroupedStmts : List TypedStmt → List TypedStmt
  | [] => []
  | s :: rest => s.ungrouped :: ungroupedStmts rest

end

/-- The typed program without parentheses. -/
def TypedProgram.ungrouped (p : TypedProgram) : TypedProgram := ⟨ungroupedStmts p.statements⟩

/-- Parentheses do not change the type of an expression. -/
theorem TypedExpr.ty_ungrouped : ∀ e : TypedExpr, e.ungrouped.ty = e.ty
  | .group inner => by rw [ungrouped, ty_ungrouped inner, ty]
  | .literal _ _ | .binary _ _ _ _ | .variable _ _ | .property _ _ _ | .call _ _ _
  | .method _ _ _ _ | .object _ _ _ _ => rfl

namespace Check

/-- A declaration binds its name to the same type. -/
theorem bindingTy_ungrouped (declared : Option Ty) (value : Option TypedExpr) :
    bindingTy declared (ungroupedOption value) = bindingTy declared value := by
  cases value with
  | none => rw [ungroupedOption]
  | some e =>
    cases declared <;> simp only [ungroupedOption, bindingTy, TypedExpr.ty_ungrouped]

theorem valueTy_ungrouped (value : Option TypedExpr) :
    (ungroupedOption value).elim .nil (·.ty) = value.elim .nil (·.ty) := by
  cases value with
  | none => rw [ungroupedOption]
  | some e => exact e.ty_ungrouped

theorem name_ungrouped (d : TypedDeclaration) : d.ungrouped.name = d.name := by
  obtain ⟨name, ty, value⟩ := d
  rw [TypedDeclaration.ungrouped]

theorem ty_ungrouped (d : TypedDeclaration) : d.ungrouped.ty = d.ty := by
  obtain ⟨name, ty, value⟩ := d
  rw [TypedDeclaration.ungrouped]

theorem signature_trim (d : Definition) : signature (d.trim { groups := true }) = signature d := by
  obtain ⟨name, parameters, returnType, body⟩ := d
  have hparameter : Parameter.trim { groups := true } = id := rfl
  have htype : Trimming.typeName { groups := true } returnType = returnType := rfl
  rw [Definition.trim, signature, signature, hparameter, List.map_id, htype]

theorem registerMethods_trim (members : FrameId) (methods : List Definition) :
    registerMethods members (trimMethods { groups := true } methods) =
      registerMethods members methods := by
  induction methods with
  | nil => rw [trimMethods]
  | cons d rest ih =>
    rw [trimMethods, registerMethods, registerMethods, d.name_trim, signature_trim, ih]

theorem length_trimExprs (t : Trimming) (es : List Expr) : (trimExprs t es).length = es.length := by
  induction es with
  | nil => rw [trimExprs]
  | cons e rest ih => rw [trimExprs, List.length_cons, List.length_cons, ih]

theorem stmt_assign_of_not_isTarget (f : FrameId) {target value : Expr} (h : ¬ target.IsTarget) :
    stmt f (.assign target value) = throw .invalidAssignmentTarget :=
  match target, h with
  | .variable _, h | .property _ _, h => absurd trivial h
  | .literal _, _ | .group _, _ | .binary _ _ _, _ | .call _ _, _ | .method _ _ _, _
  | .object _ _ _, _ => rfl

/-- What is no target is rejected with parentheses and without. -/
theorem assign_ungrouped (f : FrameId) {target value : Expr}
    (hfits : Trimming.Fits { groups := true } [target]) (h : ¬ target.IsTarget) :
    stmt f ((Stmt.assign target value).trim { groups := true }) =
      TypedStmt.ungrouped <$> stmt f (.assign target value) := by
  rw [Stmt.trim, stmt_assign_of_not_isTarget f h,
    stmt_assign_of_not_isTarget f (Expr.isTarget_trim hfits h)]
  rfl

mutual

theorem expr_ungrouped (f : FrameId) : ∀ e : Expr, Trimming.Fits { groups := true } e.targets →
    expr f (e.trim { groups := true }) = TypedExpr.ungrouped <$> expr f e
  | .literal value, _ => by
    simp only [Expr.trim, expr, map_pure, TypedExpr.ungrouped]
  | .group inner, he => by
    have hgroup : Trimming.group { groups := true } (inner.trim { groups := true }) =
        inner.trim { groups := true } := rfl
    simp only [Expr.trim, hgroup, expr, map_bind, map_pure, TypedExpr.ungrouped,
      expr_ungrouped f inner he]
    exact (bind_pure_comp _ _).symm
  | .binary op left right, he => by
    obtain ⟨hleft, hright⟩ := Trimming.fits_append_iff.mp he
    simp only [Expr.trim, expr, map_bind, map_pure, bind_map_left, TypedExpr.ungrouped,
      TypedExpr.ty_ungrouped, expr_ungrouped f left hleft, expr_ungrouped f right hright]
  | .variable name, _ => by
    simp only [Expr.trim, expr, map_bind, map_pure, TypedExpr.ungrouped]
  | .property receiver name, he => by
    simp only [Expr.trim, expr, map_bind, map_pure, bind_map_left, TypedExpr.ungrouped,
      TypedExpr.ty_ungrouped, expr_ungrouped f receiver he]
  | .call name arguments, he => by
    simp only [Expr.trim, expr, map_bind, map_pure, bind_map_left, TypedExpr.ungrouped,
      length_trimExprs, exprs_ungrouped f arguments he]
  | .method receiver name arguments, he => by
    obtain ⟨hreceiver, harguments⟩ := Trimming.fits_append_iff.mp he
    simp only [Expr.trim, expr, map_bind, map_pure, bind_map_left, TypedExpr.ungrouped,
      TypedExpr.ty_ungrouped, length_trimExprs, expr_ungrouped f receiver hreceiver,
      exprs_ungrouped f arguments harguments]
  | .object name fields methods, he => by
    obtain ⟨hfields, hmethods⟩ := Trimming.fits_append_iff.mp he
    simp only [Expr.trim, expr, map_bind, map_pure, bind_map_left, TypedExpr.ungrouped,
      registerMethods_trim, objectFields_ungrouped f _ fields hfields,
      objectMethods_ungrouped f _ methods hmethods]

theorem exprs_ungrouped (f : FrameId) : ∀ es : List Expr,
    Trimming.Fits { groups := true } (targetsOfExprs es) → ∀ params : List Ty,
    exprs f (trimExprs { groups := true } es) params = ungroupedExprs <$> exprs f es params
  | [], _, params => by
    simp only [trimExprs, exprs, map_pure, ungroupedExprs]
  | e :: rest, he, [] => by
    simp only [trimExprs, exprs, map_pure, ungroupedExprs]
  | e :: rest, he, param :: params => by
    obtain ⟨he, hrest⟩ := Trimming.fits_append_iff.mp he
    simp only [trimExprs, exprs, map_bind, map_pure, bind_map_left, ungroupedExprs,
      TypedExpr.ty_ungrouped, expr_ungrouped f e he, exprs_ungrouped f rest hrest]

theorem optionalExpr_ungrouped (f : FrameId) : ∀ e : Option Expr,
    Trimming.Fits { groups := true } (targetsOfOption e) →
    optionalExpr f (trimOption { groups := true } e) = ungroupedOption <$> optionalExpr f e
  | none, _ => by
    simp only [trimOption, optionalExpr, map_pure, ungroupedOption]
  | some e, he => by
    simp only [trimOption, optionalExpr, map_bind, map_pure, bind_map_left, ungroupedOption,
      expr_ungrouped f e he]

theorem declaration_ungrouped (f : FrameId) : ∀ d : Declaration,
    Trimming.Fits { groups := true } d.targets →
    declaration f (d.trim { groups := true }) = TypedDeclaration.ungrouped <$> declaration f d
  | ⟨name, typeName, value⟩, hd => by
    have htype : Trimming.typeName { groups := true } typeName = typeName := rfl
    simp only [Declaration.trim, htype, declaration, map_bind, map_pure, bind_map_left,
      TypedDeclaration.ungrouped, bindingTy_ungrouped, optionalExpr_ungrouped f value hd]

theorem objectFields_ungrouped (f members : FrameId) : ∀ fields : List Declaration,
    Trimming.Fits { groups := true } (targetsOfFields fields) →
    objectFields f members (trimFields { groups := true } fields) =
      ungroupedFields <$> objectFields f members fields
  | [], _ => by
    simp only [trimFields, objectFields, map_pure, ungroupedFields]
  | d :: rest, hfields => by
    obtain ⟨hd, hrest⟩ := Trimming.fits_append_iff.mp hfields
    simp only [trimFields, objectFields, map_bind, map_pure, bind_map_left, ungroupedFields, d.name_trim,
      name_ungrouped, ty_ungrouped, declaration_ungrouped f d hd, objectFields_ungrouped f members rest hrest]

theorem objectMethods_ungrouped (f : FrameId) (this : Ty) : ∀ methods : List Definition,
    Trimming.Fits { groups := true } (targetsOfMethods methods) → ∀ signatures : List Signature,
    objectMethods f this (trimMethods { groups := true } methods) signatures =
      ungroupedMethods <$> objectMethods f this methods signatures
  | [], _, signatures => by
    simp only [trimMethods, objectMethods, map_pure, ungroupedMethods]
  | d :: rest, hmethods, [] => by
    simp only [trimMethods, objectMethods, map_pure, ungroupedMethods]
  | d :: rest, hmethods, s :: signatures => by
    obtain ⟨hd, hrest⟩ := Trimming.fits_append_iff.mp hmethods
    simp only [trimMethods, objectMethods, map_bind, map_pure, bind_map_left, ungroupedMethods,
      definition_ungrouped f _ d hd, objectMethods_ungrouped f this rest hrest]

theorem definition_ungrouped (f : FrameId) (this : Option Ty) : ∀ d : Definition,
    Trimming.Fits { groups := true } d.targets → ∀ s : Signature,
    definition f this (d.trim { groups := true }) s =
      TypedDefinition.ungrouped <$> definition f this d s
  | ⟨name, parameters, returnType, body⟩, hd, s => by
    simp only [Definition.trim, definition, map_bind, map_pure, bind_map_left,
      TypedDefinition.ungrouped, stmts_ungrouped _ body hd]

theorem stmt_ungrouped (f : FrameId) : ∀ s : Stmt,
    Trimming.Fits { groups := true } s.targets →
    stmt f (s.trim { groups := true }) = TypedStmt.ungrouped <$> stmt f s
  | .declare d, hs => by
    simp only [Stmt.trim, stmt, map_bind, map_pure, bind_map_left, TypedStmt.ungrouped, d.name_trim,
      name_ungrouped, ty_ungrouped, declaration_ungrouped f d hs]
  | .define d, hs => by
    simp only [Stmt.trim, stmt, map_bind, map_pure, bind_map_left, TypedStmt.ungrouped,
      d.name_trim, signature_trim, definition_ungrouped f none d hs]
  | .branch condition thenBody elseBody, hs => by
    obtain ⟨hcondition, hbodies⟩ := Trimming.fits_append_iff.mp hs
    obtain ⟨hthen, helse⟩ := Trimming.fits_append_iff.mp hbodies
    simp only [Stmt.trim, stmt, map_bind, map_pure, bind_map_left, TypedStmt.ungrouped,
      TypedExpr.ty_ungrouped, expr_ungrouped f condition hcondition, stmts_ungrouped _ thenBody hthen,
      stmts_ungrouped _ elseBody helse]
  | .forEach name items body, hs => by
    obtain ⟨hitems, hbody⟩ := Trimming.fits_append_iff.mp hs
    simp only [Stmt.trim, stmt, map_bind, map_pure, bind_map_left, TypedStmt.ungrouped,
      TypedExpr.ty_ungrouped, expr_ungrouped f items hitems, stmts_ungrouped _ body hbody]
  | .ret value, hs => by
    simp only [Stmt.trim, stmt, map_bind]
    refine bind_congr fun returns => ?_
    cases returns with
    | none => rfl
    | some ty =>
      simp only [map_bind, map_pure, bind_map_left, TypedStmt.ungrouped, valueTy_ungrouped,
        optionalExpr_ungrouped f value hs]
  | .expression value, hs => by
    simp only [Stmt.trim, stmt, map_bind, map_pure, bind_map_left, TypedStmt.ungrouped,
      expr_ungrouped f value hs]
  | .assign (.variable name) value, hs => by
    obtain ⟨_, hparts⟩ := Trimming.fits_append_iff.mp hs
    obtain ⟨_, hvalue⟩ := Trimming.fits_append_iff.mp hparts
    simp only [Stmt.trim, Expr.trim, stmt, map_bind, map_pure, bind_map_left, TypedStmt.ungrouped,
      TypedExpr.ty_ungrouped, expr_ungrouped f value hvalue]
  | .assign (.property receiver name) value, hs => by
    obtain ⟨_, hparts⟩ := Trimming.fits_append_iff.mp hs
    obtain ⟨hreceiver, hvalue⟩ := Trimming.fits_append_iff.mp hparts
    simp only [Stmt.trim, Expr.trim, stmt, map_bind, map_pure, bind_map_left, TypedStmt.ungrouped,
      TypedExpr.ty_ungrouped, expr_ungrouped f receiver hreceiver, expr_ungrouped f value hvalue]
  | .assign (.literal _) _, hs | .assign (.group _) _, hs | .assign (.binary _ _ _) _, hs
  | .assign (.call _ _) _, hs | .assign (.method _ _ _) _, hs | .assign (.object _ _ _) _, hs => by
    obtain ⟨htarget, _⟩ := Trimming.fits_append_iff.mp hs
    exact assign_ungrouped f htarget id

theorem stmts_ungrouped (f : FrameId) : ∀ body : List Stmt,
    Trimming.Fits { groups := true } (targetsOfStmts body) →
    stmts f (trimStmts { groups := true } body) = ungroupedStmts <$> stmts f body
  | [], _ => by
    simp only [trimStmts, stmts, map_pure, ungroupedStmts]
  | s :: rest, hbody => by
    obtain ⟨hs, hrest⟩ := Trimming.fits_append_iff.mp hbody
    simp only [trimStmts, stmts, map_bind, map_pure, bind_map_left, ungroupedStmts,
      stmt_ungrouped f s hs, stmts_ungrouped f rest hrest]

end

/-- The checker makes the same of a program without parentheses, up to these. -/
theorem program_ungrouped (f : FrameId) (p : Program)
    (hp : Trimming.Fits { groups := true } p.targets) :
    program f p.ungrouped = TypedProgram.ungrouped <$> program f p := by
  simp only [program, Program.ungrouped, Program.trim, map_bind, map_pure, bind_map_left, TypedProgram.ungrouped,
    stmts_ungrouped f p.statements hp]

end Check

end ObjectLang
