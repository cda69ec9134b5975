import ObjectLang.Proofs.Check.Growth

/-!
# Checkers with a current frame

`ObjectLang.Check` hands the frame to every expression and statement. A `Checker` keeps its current
frame in its state instead. A block and the body of a function make a new frame the current one, and
a guard puts the previous frame back however the part under it ends. The frame of members of an
object is never the current one: it is filled from outside.

Both ways come to the same: a checker that visits a tree does what `ObjectLang.Check` does in the
frame that the checker starts in, and ends in that frame, whether the tree is accepted or rejected.
-/

namespace ObjectLang

/-- A checker at work: the frame that new names go into, and all type frames. -/
structure Checker where
  frame : FrameId
  types : Store Ty

/-- A run of a checker, which may leave it in another frame. -/
abbrev CheckerM := EStateM CheckError Checker

namespace Checker

/-- A step that depends on the current frame and leaves it alone. -/
def lift {α : Type} (x : FrameId → CheckM α) : CheckerM α := fun v =>
  (x v.frame v.types).mapState fun types => ⟨v.frame, types⟩

/-- Runs `body` with `frame` as the current frame. The guard puts the previous one back however the
body ends. -/
def within {α : Type} (frame : FrameId) (body : CheckerM α) : CheckerM α := fun v =>
  let previous := v.frame
  (body { v with frame := frame }).mapState fun v => { v with frame := previous }

mutual

/-- Checks an expression in the current frame. -/
def expr : Expr → CheckerM TypedExpr
  | .literal value => return .literal value value.ty
  | .group inner => return .group (← expr inner)
  | .binary op left right => do
    let left ← expr left
    let right ← expr right
    return .binary op left right (← lift fun _ => Check.result (op.resultTy left.ty right.ty))
  | .variable name => return .variable name (← lift (Check.lookup · name))
  | .property receiver name => do
    let receiver ← expr receiver
    let members ← lift fun _ => Check.membersOf receiver.ty
    return .property receiver name (← lift fun _ => Check.memberTy members name)
  | .call name arguments => do
    let target ← lift (Check.lookup · name)
    let (params, returns) ← lift fun _ => Check.callable name arguments.length target
    return .call name (← exprs arguments params) returns
  | .method receiver name arguments => do
    let receiver ← expr receiver
    let members ← lift fun _ => Check.membersOf receiver.ty
    let target ← lift fun _ => Check.memberTy members name
    let (params, returns) ← lift fun _ => Check.callable name arguments.length target
    return .method receiver name (← exprs arguments params) returns
  | .object name fields methods => do
    lift fun _ => Check.requireUnreserved name
    let members ← lift fun _ => Check.newFrame none
    let fields ← objectFields members fields
    let signatures ← lift fun _ => Check.registerMethods members methods
    let methods ← objectMethods (.object members) methods signatures
    return .object name fields methods (.object members)

def exprs : List Expr → List Ty → CheckerM (List TypedExpr)
  | e :: rest, param :: params => do
    let e ← expr e
    lift fun _ => Check.requireSubtype e.ty param
    return e :: (← exprs rest params)
  | _, _ => return []

def optionalExpr : Option Expr → CheckerM (Option TypedExpr)
  | none => return none
  | some e => return some (← expr e)

/-- Checks a declaration without binding its name. -/
def declaration : Declaration → CheckerM TypedDeclaration
  | ⟨name, typeName, value⟩ => do
    let declared ← lift fun _ => Check.declaredTy? typeName
    let value ← optionalExpr value
    return ⟨name, ← lift fun _ => Check.bindingTy declared value, value⟩

/-- Checks fields in the current frame and binds them in the frame of members. -/
def objectFields (members : FrameId) : List Declaration → CheckerM (List TypedDeclaration)
  | [] => return []
  | d :: rest => do
    lift fun _ => Check.requireFree members d.name
    let d ← declaration d
    lift fun _ => Check.define members d.name d.ty
    return d :: (← objectFields members rest)

/-- Checks the bodies of methods, each with its signature. -/
def objectMethods (this : Ty) :
    List Definition → List Check.Signature → CheckerM (List TypedDefinition)
  | d :: rest, s :: signatures => do
    let d ← definition (some this) d s
    return d :: (← objectMethods this rest signatures)
  | _, _ => return []

/-- Checks the body of a function in a frame inside of the current one. -/
def definition (this : Option Ty) : Definition → Check.Signature → CheckerM TypedDefinition
  | ⟨name, _, _, body⟩, s => do
    let frame ← lift fun f => Check.newFrame (some f)
    lift fun _ => Check.defineAll frame (Check.bodyBindings this s)
    let body ← within frame (stmts body)
    return ⟨name, s.parameters, s.returns, body⟩

/-- Checks a statement in the current frame. -/
def stmt : Stmt → CheckerM TypedStmt
  | .declare d => do
    lift (Check.requireFree · d.name)
    let d ← declaration d
    lift (Check.define · d.name d.ty)
    return .declare d
  | .define d => do
    lift (Check.requireFree · d.name)
    let s ← lift fun _ => Check.signature d
    lift (Check.define · d.name s.ty)
    return .define (← definition none d s)
  | .branch condition thenBody elseBody => do
    let condition ← expr condition
    lift fun _ => Check.requireSubtype condition.ty .boolean
    let thenFrame ← lift fun f => Check.newFrame (some f)
    let thenBody ← within thenFrame (stmts thenBody)
    let elseFrame ← lift fun f => Check.newFrame (some f)
    let elseBody ← within elseFrame (stmts elseBody)
    return .branch condition thenBody elseBody
  | .forEach name items body => do
    let items ← expr items
    lift fun _ => Check.requireSubtype items.ty .iterable
    let frame ← lift fun f => Check.newFrame (some f)
    lift fun _ => Check.define frame name .integer
    return .forEach name .integer items (← within frame (stmts body))
  | .ret value => do
    match ← lift (Check.lookup? · returnsName) with
    | none => throw .returnOutsideFunction
    | some returns =>
      let value ← optionalExpr value
      lift fun _ => Check.requireSubtype (value.elim .nil (·.ty)) returns
      return .ret value
  | .expression value => return .expression (← expr value)
  | .assign (.variable name) value => do
    let ty ← lift (Check.lookup · name)
    let value ← expr value
    lift fun _ => Check.requireSubtype value.ty ty
    return .assignVariable name ty value
  | .assign (.property receiver name) value => do
    let receiver ← expr receiver
    let members ← lift fun _ => Check.membersOf receiver.ty
    let ty ← lift fun _ => Check.memberTy members name
    let value ← expr value
    lift fun _ => Check.requireSubtype value.ty ty
    return .assignProperty receiver name ty value
  | .assign _ _ => throw .invalidAssignmentTarget

/-- Checks statements one after another in the current frame. -/
def stmts : List Stmt → CheckerM (List TypedStmt)
  | [] => return []
  | s :: rest => do
    let s ← stmt s
    return s :: (← stmts rest)

end

/-- Checks a program in the current frame. -/
def program (p : Program) : CheckerM TypedProgram := return ⟨← stmts p.statements⟩

/-! ## Guards give every frame back -/

/-- In the frame `f` the checker does what `x` does, and ends in `f`, however it ends. -/
def Follows (f : FrameId) {α : Type} (v : CheckerM α) (x : CheckM α) : Prop :=
  ∀ s, v ⟨f, s⟩ = (x s).mapState fun s => ⟨f, s⟩

namespace Follows

variable {f : FrameId} {α β : Type}

theorem pure (a : α) : Follows f (pure a) (pure a) := fun _ => rfl

theorem throw (e : CheckError) : Follows f (throw e : CheckerM α) (throw e) := fun _ => rfl

theorem lift (x : FrameId → CheckM α) : Follows f (lift x) (x f) := fun _ => rfl

theorem bind {v : CheckerM α} {x : CheckM α} {k : α → CheckerM β} {l : α → CheckM β}
    (hx : Follows f v x) (hk : ∀ a, Follows f (k a) (l a)) : Follows f (v >>= k) (x >>= l) := by
  intro s
  rw [bind_run, bind_run, hx s]
  cases x s with
  | ok a t => exact hk a t
  | error e t => rfl

/-- Under a guard the frame is another one, after the guard it is the old one. -/
theorem within {frame : FrameId} {v : CheckerM α} {x : CheckM α} (hx : Follows frame v x) :
    Follows f (within frame v) x := by
  intro s
  show (v ⟨frame, s⟩).mapState _ = _
  rw [hx s]
  cases x s <;> rfl

mutual

theorem expr (f : FrameId) : ∀ e : Expr, Follows f (expr e) (Check.expr f e)
  | .literal value => by
    rw [Checker.expr, Check.expr]
    exact .pure _
  | .group inner => by
    rw [Checker.expr, Check.expr]
    exact (expr f inner).bind fun _ => .pure _
  | .binary op left right => by
    rw [Checker.expr, Check.expr]
    refine (expr f left).bind fun l => (expr f right).bind fun r => ?_
    exact (lift _).bind fun _ => .pure _
  | .variable name => by
    rw [Checker.expr, Check.expr]
    exact (lift _).bind fun _ => .pure _
  | .property receiver name => by
    rw [Checker.expr, Check.expr]
    refine (expr f receiver).bind fun r => (lift _).bind fun members => ?_
    exact (lift _).bind fun _ => .pure _
  | .call name arguments => by
    rw [Checker.expr, Check.expr]
    refine (lift _).bind fun target => (lift _).bind fun (params, returns) => ?_
    exact (exprs f arguments params).bind fun _ => .pure _
  | .method receiver name arguments => by
    rw [Checker.expr, Check.expr]
    refine (expr f receiver).bind fun r => (lift _).bind fun members => ?_
    refine (lift _).bind fun target => (lift _).bind fun (params, returns) => ?_
    exact (exprs f arguments params).bind fun _ => .pure _
  | .object name fields methods => by
    rw [Checker.expr, Check.expr]
    refine (lift _).bind fun _ => (lift _).bind fun members => ?_
    refine (objectFields f members fields).bind fun _ => (lift _).bind fun signatures => ?_
    exact (objectMethods f (.object members) methods signatures).bind fun _ => .pure _

theorem exprs (f : FrameId) : ∀ (es : List Expr) (params : List Ty),
    Follows f (exprs es params) (Check.exprs f es params)
  | e :: rest, param :: params => by
    rw [Checker.exprs, Check.exprs]
    refine (expr f e).bind fun e => (lift _).bind fun _ => ?_
    exact (exprs f rest params).bind fun _ => .pure _
  | [], _ | _ :: _, [] => by
    rw [Checker.exprs.eq_def, Check.exprs.eq_def]
    exact .pure _

theorem optionalExpr (f : FrameId) : ∀ e : Option Expr,
    Follows f (optionalExpr e) (Check.optionalExpr f e)
  | none => by
    rw [Checker.optionalExpr, Check.optionalExpr]
    exact .pure _
  | some e => by
    rw [Checker.optionalExpr, Check.optionalExpr]
    exact (expr f e).bind fun _ => .pure _

theorem declaration (f : FrameId) : ∀ d : Declaration,
    Follows f (declaration d) (Check.declaration f d)
  | ⟨name, typeName, value⟩ => by
    rw [Checker.declaration, Check.declaration]
    refine (lift _).bind fun declared => (optionalExpr f value).bind fun v => ?_
    exact (lift _).bind fun _ => .pure _

theorem objectFields (f members : FrameId) : ∀ fields : List Declaration,
    Follows f (objectFields members fields) (Check.objectFields f members fields)
  | [] => by
    rw [Checker.objectFields, Check.objectFields]
    exact .pure _
  | d :: rest => by
    rw [Checker.objectFields, Check.objectFields]
    refine (lift _).bind fun _ => (declaration f d).bind fun t => (lift _).bind fun _ => ?_
    exact (objectFields f members rest).bind fun _ => .pure _

theorem objectMethods (f : FrameId) (this : Ty) :
    ∀ (methods : List Definition) (signatures : List Check.Signature),
    Follows f (objectMethods this methods signatures)
      (Check.objectMethods f this methods signatures)
  | d :: rest, s :: signatures => by
    rw [Checker.objectMethods, Check.objectMethods]
    refine (definition f (some this) d s).bind fun _ => ?_
    exact (objectMethods f this rest signatures).bind fun _ => .pure _
  | [], _ | _ :: _, [] => by
    rw [Checker.objectMethods.eq_def, Check.objectMethods.eq_def]
    exact .pure _

theorem definition (f : FrameId) (this : Option Ty) :
    ∀ (d : Definition) (s : Check.Signature),
    Follows f (definition this d s) (Check.definition f this d s)
  | ⟨name, parameters, returnType, body⟩, s => by
    rw [Checker.definition, Check.definition]
    refine (lift _).bind fun frame => (lift _).bind fun _ => ?_
    exact (within (stmts frame body)).bind fun _ => .pure _

theorem stmt (f : FrameId) : ∀ s : Stmt, Follows f (stmt s) (Check.stmt f s)
  | .declare d => by
    rw [Checker.stmt, Check.stmt]
    refine (lift _).bind fun _ => (declaration f d).bind fun t => ?_
    exact (lift _).bind fun _ => .pure _
  | .define d => by
    rw [Checker.stmt, Check.stmt]
    refine (lift _).bind fun _ => (lift _).bind fun s => (lift _).bind fun _ => ?_
    exact (definition f none d s).bind fun _ => .pure _
  | .branch condition thenBody elseBody => by
    rw [Checker.stmt, Check.stmt]
    refine (expr f condition).bind fun t => (lift _).bind fun _ => (lift _).bind fun frame => ?_
    refine (within (stmts frame thenBody)).bind fun _ => (lift _).bind fun frame' => ?_
    exact (within (stmts frame' elseBody)).bind fun _ => .pure _
  | .forEach name items body => by
    rw [Checker.stmt, Check.stmt]
    refine (expr f items).bind fun t => (lift _).bind fun _ => (lift _).bind fun frame => ?_
    exact (lift _).bind fun _ => (within (stmts frame body)).bind fun _ => .pure _
  | .ret value => by
    rw [Checker.stmt, Check.stmt]
    refine (lift _).bind fun returns => ?_
    cases returns with
    | none => exact .throw _
    | some returns =>
      exact (optionalExpr f value).bind fun v => (lift _).bind fun _ => .pure _
  | .expression value => by
    rw [Checker.stmt, Check.stmt]
    exact (expr f value).bind fun _ => .pure _
  | .assign (.variable name) value => by
    rw [Checker.stmt, Check.stmt]
    refine (lift _).bind fun ty => (expr f value).bind fun t => ?_
    exact (lift _).bind fun _ => .pure _
  | .assign (.property receiver name) value => by
    rw [Checker.stmt, Check.stmt]
    refine (expr f receiver).bind fun r => (lift _).bind fun members => ?_
    refine (lift _).bind fun ty => (expr f value).bind fun t => ?_
    exact (lift _).bind fun _ => .pure _
  | .assign (.literal _) _ | .assign (.group _) _ | .assign (.binary _ _ _) _
  | .assign (.call _ _) _ | .assign (.method _ _ _) _ | .assign (.object _ _ _) _ => by
    rw [Checker.stmt.eq_def, Check.stmt.eq_def]
    exact .throw _

theorem stmts (f : FrameId) : ∀ body : List Stmt, Follows f (stmts body) (Check.stmts f body)
  | [] => by
    rw [Checker.stmts, Check.stmts]
    exact .pure _
  | s :: rest => by
    rw [Checker.stmts, Check.stmts]
    exact (stmt f s).bind fun _ => (stmts f rest).bind fun _ => .pure _

end

theorem program (f : FrameId) (p : Program) : Follows f (program p) (Check.program f p) :=
  (stmts f p.statements).bind fun _ => .pure _

end Follows

end Checker

end ObjectLang
