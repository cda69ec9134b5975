import ObjectLang.Proofs.Check.Members
import ObjectLang.Proofs.Trace

/-!
# Traced checking

Checking that keeps a list of its moments. It follows the checker clause by clause, and there is a
record of every object literal that is accepted.
-/

namespace ObjectLang.Check

/-- What comes about in the course of a check. -/
inductive Event where
  /-- An object literal has been accepted; this is what the checker makes of it, and the frame of
  its type. -/
  | built (fields : List Declaration) (methods : List Definition)
    (tfields : List TypedDeclaration) (tmethods : List TypedDefinition) (members : FrameId)

namespace Traced

/-- A traced check. -/
abbrev Run := TraceM Event CheckError (Store Ty)

open TraceM

def defineAll (f : FrameId) : List (String × Ty) → Run Unit
  | [] => return ()
  | (name, ty) :: rest => do
    step (define f name ty)
    defineAll f rest

def registerMethods (members : FrameId) : List Definition → Run (List Signature)
  | [] => return []
  | d :: rest => do
    step (requireFree members d.name)
    let s ← step (signature d)
    step (define members d.name s.ty)
    return s :: (← registerMethods members rest)

mutual

def expr (f : FrameId) : Expr → Run TypedExpr
  | .literal value => return .literal value value.ty
  | .group inner => return .group (← expr f inner)
  | .binary op left right => do
    let left ← expr f left
    let right ← expr f right
    return .binary op left right (← step (result (op.resultTy left.ty right.ty)))
  | .variable name => return .variable name (← step (lookup f name))
  | .property receiver name => do
    let receiver ← expr f receiver
    let members ← step (membersOf receiver.ty)
    return .property receiver name (← step (memberTy members name))
  | .call name arguments => do
    let target ← step (lookup f name)
    let (params, returns) ← step (callable name arguments.length target)
    return .call name (← exprs f arguments params) returns
  | .method receiver name arguments => do
    let receiver ← expr f receiver
    let members ← step (membersOf receiver.ty)
    let target ← step (memberTy members name)
    let (params, returns) ← step (callable name arguments.length target)
    return .method receiver name (← exprs f arguments params) returns
  | .object name fields methods => do
    step (requireUnreserved name)
    let members ← step (newFrame none)
    let tfields ← objectFields f members fields
    let signatures ← registerMethods members methods
    let tmethods ← objectMethods f (.object members) methods signatures
    mark (.built fields methods tfields tmethods members)
    return .object name tfields tmethods (.object members)

def exprs (f : FrameId) : List Expr → List Ty → Run (List TypedExpr)
  | e :: rest, param :: params => do
    let e ← expr f e
    step (requireSubtype e.ty param)
    return e :: (← exprs f rest params)
  | _, _ => return []

def optionalExpr (f : FrameId) : Option Expr → Run (Option TypedExpr)
  | none => return none
  | some e => return some (← expr f e)

def declaration (f : FrameId) : Declaration → Run TypedDeclaration
  | ⟨name, typeName, value⟩ => do
    let declared ← step (declaredTy? typeName)
    let value ← optionalExpr f value
    return ⟨name, ← step (bindingTy declared value), value⟩

def objectFields (f members : FrameId) : List Declaration → Run (List TypedDeclaration)
  | [] => return []
  | d :: rest => do
    step (requireFree members d.name)
    let d ← declaration f d
    step (define members d.name d.ty)
    return d :: (← objectFields f members rest)

def objectMethods (f : FrameId) (this : Ty) :
    List Definition → List Signature → Run (List TypedDefinition)
  | d :: rest, s :: signatures => do
    let d ← definition f (some this) d s
    return d :: (← objectMethods f this rest signatures)
  | _, _ => return []

def definition (f : FrameId) (this : Option Ty) : Definition → Signature → Run TypedDefinition
  | ⟨name, _, _, body⟩, s => do
    let frame ← step (newFrame (some f))
    defineAll frame (bodyBindings this s)
    let body ← stmts frame body
    return ⟨name, s.parameters, s.returns, body⟩

def stmt (f : FrameId) : Stmt → Run TypedStmt
  | .declare d => do
    step (requireFree f d.name)
    let d ← declaration f d
    step (define f d.name d.ty)
    return .declare d
  | .define d => do
    step (requireFree f d.name)
    let s ← step (signature d)
    step (define f d.name s.ty)
    return .define (← definition f none d s)
  | .branch condition thenBody elseBody => do
    let condition ← expr f condition
    step (requireSubtype condition.ty .boolean)
    let thenFrame ← step (newFrame (some f))
    let thenBody ← stmts thenFrame thenBody
    let elseFrame ← step (newFrame (some f))
    let elseBody ← stmts elseFrame elseBody
    return .branch condition thenBody elseBody
  | .forEach name items body => do
    let items ← expr f items
    step (requireSubtype items.ty .iterable)
    let frame ← step (newFrame (some f))
    step (define frame name .integer)
    return .forEach name .integer items (← stmts frame body)
  | .ret value => do
    match ← step (lookup? f returnsName) with
    | none => throw .returnOutsideFunction
    | some returns =>
      let value ← optionalExpr f value
      step (requireSubtype (value.elim .nil (·.ty)) returns)
      return .ret value
  | .expression value => return .expression (← expr f value)
  | .assign target value =>
    match target with
    | .variable name => do
      let ty ← step (lookup f name)
      let value ← expr f value
      step (requireSubtype value.ty ty)
      return .assignVariable name ty value
    | .property receiver name => do
      let receiver ← expr f receiver
      let members ← step (membersOf receiver.ty)
      let ty ← step (memberTy members name)
      let value ← expr f value
      step (requireSubtype value.ty ty)
      return .assignProperty receiver name ty value
    | _ => throw .invalidAssignmentTarget

def stmts (f : FrameId) : List Stmt → Run (List TypedStmt)
  | [] => return []
  | s :: rest => do
    let s ← stmt f s
    return s :: (← stmts f rest)

end

def program (f : FrameId) (p : Program) : Run TypedProgram :=
  return ⟨← stmts f p.statements⟩

end Traced

/-! ## The frame of an object type -/

/-- The frame of an object type, when all members are bound: it has no parent, the names of the
literal in their order, and for each of them the type that the typed literal shows. -/
structure Shows (fields : List Declaration) (methods : List Definition)
    (tfields : List TypedDeclaration) (tmethods : List TypedDefinition) (members : FrameId)
    (s : Store Ty) : Prop where
  lists : s.Lists members (fields.map (·.name) ++ methods.map (·.name))
  parent_eq : s.parent? members = none
  bindings_eq : s.bindings members = memberBindings tfields tmethods

/-- The frame that an event is about. -/
def Event.place : Event → Option FrameId
  | .built _ _ _ _ members => some members

/-- What lasts when an event has come about. -/
def Event.Lasts : Event → Store Ty → Prop
  | .built fields methods tfields tmethods members, s =>
    Shows fields methods tfields tmethods members s

theorem durable : Durable id Event.place Event.Lasts where
  lt_size {e s} h f hf := by
    cases e
    cases hf
    exact h.lists.lt_size
  grows {e g s t} h hgrows hg := by
    obtain ⟨fields, methods, tfields, tmethods, members⟩ := e
    have hlt := h.lists.lt_size
    have hbindings := hgrows.view_eq members hlt (hg members rfl)
    rw [Store.view_id, Store.view_id] at hbindings
    exact ⟨h.lists.grows hgrows.names (hg members rfl), (hgrows.parent_eq members hlt).trans h.parent_eq,
      hbindings.trans h.bindings_eq⟩

/-- A traced check goes as the plain one, in which the frame `g` gets new names, and the frames of
object types last. -/
abbrev Tracked (g : Option FrameId) {α : Type} (x' : Traced.Run α) (x : CheckM α) : Prop :=
  Tracks id id Event.place Event.Lasts g x' x

theorem Confined.tracked {g : Option FrameId} {α : Type} {x : CheckM α} (h : Confined g x) :
    Tracked g (TraceM.step x) x :=
  .step durable h

theorem newFrame_tracked {α : Type} (p : Option FrameId) {k' : FrameId → Traced.Run α}
    {k : FrameId → CheckM α} (hk : ∀ f, Tracked (some f) (k' f) (k f)) :
    Tracked none (TraceM.step (newFrame p) >>= k') (newFrame p >>= k) :=
  .opened durable (p := fun _ => p) (fun s => ⟨_, newFrame_run p s, rfl⟩) hk

/-- When an object literal is accepted its frame is a new one, and all members are bound. -/
theorem shows_of_object {f : FrameId} {fields : List Declaration} {methods : List Definition}
    {name : Option String} {te : TypedExpr} {s t : Store Ty}
    (h : expr f (.object name fields methods) s = .ok te t) :
    ∃ tfields tmethods, te = .object name tfields tmethods (.object s.size) ∧
      Shows fields methods tfields tmethods s.size t := by
  obtain ⟨tfields, tmethods, rfl, hmembers⟩ := object_eq_ok h
  refine ⟨tfields, tmethods, rfl, ⟨hmembers.lt_size, ?_, hmembers.nodup⟩, hmembers.parent_eq,
    hmembers.bindings_eq⟩
  rw [Store.names, hmembers.bindings_eq, memberBindings_names, hmembers.fields_eq,
    hmembers.methods_eq]

namespace Traced

theorem tracked_defineAll (f : FrameId) (bindings : List (String × Ty)) :
    Tracked (some f) (defineAll f bindings) (Check.defineAll f bindings) := by
  induction bindings with
  | nil => exact .pure ()
  | cons b rest ih => exact .bind (confined.define f b.1 b.2).tracked fun _ => ih

theorem tracked_registerMethods (members : FrameId) (methods : List Definition) :
    Tracked (some members) (registerMethods members methods)
      (Check.registerMethods members methods) := by
  induction methods with
  | nil => exact .pure []
  | cons d rest ih =>
    refine .bind ((confined.requireFree members d.name).tracked.weaken _) fun _ => ?_
    refine .bind ((confined.signature d).tracked.weaken _) fun s => ?_
    exact .bind (confined.define members d.name s.ty).tracked fun _ => .bind ih fun _ => .pure _

mutual

theorem tracked_expr (f : FrameId) : ∀ e : Expr, Tracked none (expr f e) (Check.expr f e)
  | .literal value => by
    rw [expr, Check.expr]
    exact .pure _
  | .group inner => by
    rw [expr, Check.expr]
    exact .bind (tracked_expr f inner) fun _ => .pure _
  | .binary op left right => by
    rw [expr, Check.expr]
    refine .bind (tracked_expr f left) fun l => .bind (tracked_expr f right) fun r => ?_
    exact .bind (confined.operator op l.ty r.ty).tracked fun _ => .pure _
  | .variable name => by
    rw [expr, Check.expr]
    exact .bind (confined.lookup f name).tracked fun _ => .pure _
  | .property receiver name => by
    rw [expr, Check.expr]
    refine .bind (tracked_expr f receiver) fun r => ?_
    refine .bind (confined.membersOf r.ty).tracked fun members => ?_
    exact .bind (confined.memberTy members name).tracked fun _ => .pure _
  | .call name arguments => by
    rw [expr, Check.expr]
    refine .bind (confined.lookup f name).tracked fun target => ?_
    refine .bind (confined.callable name _ target).tracked ?_
    rintro ⟨params, returns⟩
    exact .bind (tracked_exprs f arguments params) fun _ => .pure _
  | .method receiver name arguments => by
    rw [expr, Check.expr]
    refine .bind (tracked_expr f receiver) fun r => ?_
    refine .bind (confined.membersOf r.ty).tracked fun members => ?_
    refine .bind (confined.memberTy members name).tracked fun target => ?_
    refine .bind (confined.callable name _ target).tracked ?_
    rintro ⟨params, returns⟩
    exact .bind (tracked_exprs f arguments params) fun _ => .pure _
  | .object name fields methods => by
    have hplain : Check.expr f (.object name fields methods) =
        (do
          requireUnreserved name
          let members ← newFrame none
          let tfields ← Check.objectFields f members fields
          let signatures ← Check.registerMethods members methods
          let tmethods ← Check.objectMethods f (.object members) methods signatures
          return (tfields, tmethods, members)) >>=
        fun r => return .object name r.1 r.2.1 (.object r.2.2) := by
      rw [Check.expr]
      simp only [bind_assoc, pure_bind]
    have hfill (members : FrameId) : Tracked (some members)
        (do
          let tfields ← objectFields f members fields
          let signatures ← registerMethods members methods
          let tmethods ← objectMethods f (.object members) methods signatures
          return (tfields, tmethods, members))
        (do
          let tfields ← Check.objectFields f members fields
          let signatures ← Check.registerMethods members methods
          let tmethods ← Check.objectMethods f (.object members) methods signatures
          return (tfields, tmethods, members)) :=
      .bind (tracked_objectFields f members fields) fun _ =>
        .bind (tracked_registerMethods members methods) fun signatures =>
          .bind ((tracked_objectMethods f (.object members) methods signatures).weaken _) fun _ =>
            .pure _
    have hopened := Tracks.bind (confined.requireUnreserved name).tracked fun _ =>
      newFrame_tracked none hfill
    have hmarked := hopened.mark (e := fun r => .built fields methods r.1 r.2.1 r.2.2)
      (fun r => TypedExpr.object name r.1 r.2.1 (.object r.2.2)) ?_
    · rw [hplain, expr]
      simpa only [bind_assoc, pure_bind] using hmarked
    · rintro s ⟨tfields, tmethods, members⟩ t hrun
      obtain ⟨_, _, heq, hshows⟩ := shows_of_object (congrFun hplain s ▸ bind_run_ok hrun _)
      cases heq
      refine ⟨hshows, ?_⟩
      rintro _ ⟨⟩
      exact le_rfl

theorem tracked_exprs (f : FrameId) : ∀ (es : List Expr) (params : List Ty),
    Tracked none (exprs f es params) (Check.exprs f es params)
  | e :: rest, param :: params => by
    rw [exprs, Check.exprs]
    refine .bind (tracked_expr f e) fun e => ?_
    refine .bind (confined.requireSubtype e.ty param).tracked fun _ => ?_
    exact .bind (tracked_exprs f rest params) fun _ => .pure _
  | [], _ => by
    rw [exprs.eq_def, Check.exprs.eq_def]
    exact .pure []
  | _ :: _, [] => by
    rw [exprs.eq_def, Check.exprs.eq_def]
    exact .pure []

theorem tracked_optionalExpr (f : FrameId) : ∀ e : Option Expr,
    Tracked none (optionalExpr f e) (Check.optionalExpr f e)
  | none => by
    rw [optionalExpr, Check.optionalExpr]
    exact .pure none
  | some e => by
    rw [optionalExpr, Check.optionalExpr]
    exact .bind (tracked_expr f e) fun _ => .pure _

theorem tracked_declaration (f : FrameId) : ∀ d : Declaration,
    Tracked none (declaration f d) (Check.declaration f d)
  | ⟨name, typeName, value⟩ => by
    rw [declaration, Check.declaration]
    refine .bind (confined.declaredTy? typeName).tracked fun declared => ?_
    refine .bind (tracked_optionalExpr f value) fun v => ?_
    exact .bind (confined.bindingTy declared v).tracked fun _ => .pure _

theorem tracked_objectFields (f members : FrameId) : ∀ fields : List Declaration,
    Tracked (some members) (objectFields f members fields) (Check.objectFields f members fields)
  | [] => by
    rw [objectFields, Check.objectFields]
    exact .pure []
  | d :: rest => by
    rw [objectFields, Check.objectFields]
    refine .bind ((confined.requireFree members d.name).tracked.weaken _) fun _ => ?_
    refine .bind ((tracked_declaration f d).weaken _) fun t => ?_
    refine .bind (confined.define members t.name t.ty).tracked fun _ => ?_
    exact .bind (tracked_objectFields f members rest) fun _ => .pure _

theorem tracked_objectMethods (f : FrameId) (this : Ty) :
    ∀ (methods : List Definition) (signatures : List Signature),
    Tracked none (objectMethods f this methods signatures)
      (Check.objectMethods f this methods signatures)
  | d :: rest, s :: signatures => by
    rw [objectMethods, Check.objectMethods]
    refine .bind (tracked_definition f (some this) d s) fun _ => ?_
    exact .bind (tracked_objectMethods f this rest signatures) fun _ => .pure _
  | [], _ => by
    rw [objectMethods.eq_def, Check.objectMethods.eq_def]
    exact .pure []
  | _ :: _, [] => by
    rw [objectMethods.eq_def, Check.objectMethods.eq_def]
    exact .pure []

theorem tracked_definition (f : FrameId) (this : Option Ty) : ∀ (d : Definition) (s : Signature),
    Tracked none (definition f this d s) (Check.definition f this d s)
  | ⟨name, parameters, returnType, body⟩, s => by
    rw [definition, Check.definition]
    refine newFrame_tracked (some f) fun frame => .bind (tracked_defineAll frame _) fun _ => ?_
    exact .bind (tracked_stmts frame body) fun _ => .pure _

theorem tracked_stmt (f : FrameId) : ∀ s : Stmt, Tracked (some f) (stmt f s) (Check.stmt f s)
  | .declare d => by
    rw [stmt, Check.stmt]
    refine .bind ((confined.requireFree f d.name).tracked.weaken _) fun _ => ?_
    refine .bind ((tracked_declaration f d).weaken _) fun t => ?_
    exact .bind (confined.define f t.name t.ty).tracked fun _ => .pure _
  | .define d => by
    rw [stmt, Check.stmt]
    refine .bind ((confined.requireFree f d.name).tracked.weaken _) fun _ => ?_
    refine .bind ((confined.signature d).tracked.weaken _) fun s => ?_
    refine .bind (confined.define f d.name s.ty).tracked fun _ => ?_
    exact .bind ((tracked_definition f none d s).weaken _) fun _ => .pure _
  | .branch condition thenBody elseBody => by
    rw [stmt, Check.stmt]
    refine .weaken (.bind (tracked_expr f condition) fun t => ?_) _
    refine .bind (confined.requireSubtype t.ty _).tracked fun _ => ?_
    refine newFrame_tracked (some f) fun thenFrame => .bind (tracked_stmts thenFrame thenBody) ?_
    refine fun _ => .weaken (newFrame_tracked (some f) fun elseFrame => ?_) _
    exact .bind (tracked_stmts elseFrame elseBody) fun _ => .pure _
  | .forEach name items body => by
    rw [stmt, Check.stmt]
    refine .weaken (.bind (tracked_expr f items) fun t => ?_) _
    refine .bind (confined.requireSubtype t.ty _).tracked fun _ => ?_
    refine newFrame_tracked (some f) fun frame => ?_
    refine .bind (confined.define frame name .integer).tracked fun _ => ?_
    exact .bind (tracked_stmts frame body) fun _ => .pure _
  | .ret value => by
    rw [stmt, Check.stmt]
    refine .weaken (.bind (confined.lookup? f returnsName).tracked fun returns => ?_) _
    cases returns with
    | none => exact .throw _
    | some returns =>
      refine .bind (tracked_optionalExpr f value) fun v => ?_
      exact .bind (confined.requireSubtype _ returns).tracked fun _ => .pure _
  | .expression value => by
    rw [stmt, Check.stmt]
    exact .weaken (.bind (tracked_expr f value) fun _ => .pure _) _
  | .assign (.variable name) value => by
    rw [stmt, Check.stmt]
    refine .weaken (.bind (confined.lookup f name).tracked fun ty => ?_) _
    refine .bind (tracked_expr f value) fun t => ?_
    exact .bind (confined.requireSubtype t.ty ty).tracked fun _ => .pure _
  | .assign (.property receiver name) value => by
    rw [stmt, Check.stmt]
    refine .weaken (.bind (tracked_expr f receiver) fun r => ?_) _
    refine .bind (confined.membersOf r.ty).tracked fun members => ?_
    refine .bind (confined.memberTy members name).tracked fun ty => ?_
    refine .bind (tracked_expr f value) fun t => ?_
    exact .bind (confined.requireSubtype t.ty ty).tracked fun _ => .pure _
  | .assign (.literal _) _ | .assign (.group _) _ | .assign (.binary _ _ _) _
  | .assign (.call _ _) _ | .assign (.method _ _ _) _ | .assign (.object _ _ _) _ => by
    rw [stmt.eq_def, Check.stmt.eq_def]
    exact .throw _

theorem tracked_stmts (f : FrameId) : ∀ body : List Stmt,
    Tracked (some f) (stmts f body) (Check.stmts f body)
  | [] => by
    rw [stmts, Check.stmts]
    exact .pure []
  | s :: rest => by
    rw [stmts, Check.stmts]
    exact .bind (tracked_stmt f s) fun _ => .bind (tracked_stmts f rest) fun _ => .pure _

end

/-- Every literal that is accepted is recorded when it is. -/
theorem past_of_object {f : FrameId} {name : Option String} {fields : List Declaration}
    {methods : List Definition} {r r' : Trace Event (Store Ty)} {te : TypedExpr}
    (h : expr f (.object name fields methods) r = .ok te r') :
    ∃ tfields tmethods members earlier, te = .object name tfields tmethods (.object members) ∧
      r'.past = ⟨some (.built fields methods tfields tmethods members), r'.state⟩ :: earlier := by
  simp only [expr, bind_run_eq_ok_iff, pure_run_eq_ok_iff] at h
  obtain ⟨_, _, -, members, _, -, tfields, _, -, _, _, -, tmethods, r₁, -, _, _, hmark, rfl, rfl⟩ := h
  cases hmark
  exact ⟨tfields, tmethods, members, r₁.past, rfl, rfl⟩

theorem tracked_program (f : FrameId) (p : Program) :
    Tracked (some f) (program f p) (Check.program f p) :=
  .bind (tracked_stmts f p.statements) fun _ => .pure _

end Traced

end ObjectLang.Check
