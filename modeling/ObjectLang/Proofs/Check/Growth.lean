import ObjectLang.Check.Checker
import ObjectLang.Proofs.Check.Rejections
import ObjectLang.Proofs.Outcome
import ObjectLang.Proofs.Program.Scoped
import ObjectLang.Proofs.Scope.Growth

/-!
# Growth of type frames

The checker does nothing to its store but open frames and bind names at their ends. `Check.Kept P`
collects what is asked of a property of runs in order to hold of the whole checker, and the property
of interest here is that the store only grows: a name that is bound to a type stays bound to it. An
expression binds no name in a frame that existed before, a statement at most its own name in the
frame that it is checked in. -/

namespace ObjectLang.Check

/-! ## Steps without the store -/

/-- What a property of runs has to satisfy in order to hold of the steps that do not ask the store.
A mismatch of a type with itself is never reported, so nothing is asked about it. -/
structure Storeless (P : ∀ {α : Type}, CheckM α → Prop) : Prop where
  pure {α : Type} (a : α) : P (pure a)
  throw {α : Type} {e : CheckError} : ¬ e.MismatchesItself → P (throw e : CheckM α)
  bind {α β : Type} {x : CheckM α} {k : α → CheckM β} : P x → (∀ a, P (k a)) → P (x >>= k)

namespace Storeless

variable {P : ∀ {α : Type}, CheckM α → Prop} (hP : Storeless P)
include hP

theorem result {α : Type} {r : Except CheckError α}
    (h : ∀ e, r = .error e → ¬ e.MismatchesItself) : P (result r) := by
  cases r with
  | ok a => exact hP.pure a
  | error e => exact hP.throw (h e rfl)

theorem requireSubtype (found expected : Ty) : P (requireSubtype found expected) :=
  hP.result fun _ => Ty.not_mismatchesItself_of_requireSubtype

theorem operator (op : Operator) (left right : Ty) : P (Check.result (op.resultTy left right)) :=
  hP.result fun _ h => (Operator.rejects_of_resultTy h).not_mismatchesItself

theorem resolveName (name : String) : P (resolveName name) := by
  unfold Check.resolveName
  split
  · exact hP.pure _
  · exact hP.throw id

theorem declaredTy? (name : Option String) : P (declaredTy? name) := by
  cases name with
  | none => exact hP.pure none
  | some name => exact hP.bind (hP.resolveName name) fun ty => hP.pure (some ty)

theorem declaredTy (name : Option String) : P (declaredTy name) :=
  hP.bind (hP.declaredTy? name) fun _ => hP.pure _

theorem bindingTy (declared : Option Ty) (value : Option TypedExpr) :
    P (bindingTy declared value) := by
  cases declared with
  | none => cases value <;> exact hP.pure _
  | some ty =>
    cases value with
    | none => exact hP.pure ty
    | some value => exact hP.bind (hP.requireSubtype value.ty ty) fun _ => hP.pure ty

theorem requireUnreserved (name : Option String) : P (requireUnreserved name) := by
  cases name with
  | none => exact hP.pure ()
  | some name =>
    unfold Check.requireUnreserved
    dsimp only
    split
    · exact hP.throw id
    · exact hP.pure ()

theorem membersOf (ty : Ty) : P (membersOf ty) := by
  cases ty with
  | object members => exact hP.pure members
  | _ => exact hP.throw id

theorem callable (name : String) (count : Nat) (ty : Ty) : P (callable name count ty) := by
  cases ty with
  | function params returns =>
    unfold Check.callable
    dsimp only
    split
    · exact hP.pure _
    · exact hP.throw id
  | _ => exact hP.throw id

theorem requireNew (seen : List String) (name : String) : P (requireNew seen name) := by
  unfold Check.requireNew
  split
  · exact hP.throw id
  · exact hP.pure ()

theorem parameters (seen : List String) (ps : List Parameter) : P (parameters seen ps) := by
  induction ps generalizing seen with
  | nil => exact hP.pure []
  | cons p rest ih =>
    refine hP.bind (hP.requireNew seen p.name) fun _ => hP.bind (hP.declaredTy _) fun ty => ?_
    exact hP.bind (ih (p.name :: seen)) fun ps => hP.pure _

theorem signature (d : Definition) : P (signature d) :=
  hP.bind (hP.parameters [] d.parameters) fun _ =>
    hP.bind (hP.declaredTy d.returnType) fun _ => hP.pure _

end Storeless

/-! ## The whole checker -/

/-- What a property of runs has to satisfy in order to hold of the checker. It may depend on the
frame that gets new names. -/
structure Kept (P : Option FrameId → ∀ {α : Type}, CheckM α → Prop) : Prop where
  pure {α : Type} (a : α) : P none (pure a)
  throw {α : Type} {e : CheckError} : ¬ e.MismatchesItself → P none (throw e : CheckM α)
  weaken {α : Type} {x : CheckM α} (g : Option FrameId) : P none x → P g x
  bind {α β : Type} {g : Option FrameId} {x : CheckM α} {k : α → CheckM β} :
    P g x → (∀ a, P g (k a)) → P g (x >>= k)
  read {α : Type} {g : Option FrameId} {x : Store Ty → CheckM α} :
    (∀ s, P g (x s)) → P g (get >>= x)
  /-- Names may be put into a frame that is opened on the way. -/
  opened {α : Type} (p : Option FrameId) {k : FrameId → CheckM α} :
    (∀ f, P (some f) (k f)) → P none (newFrame p >>= k)
  append (f : FrameId) (name : String) (ty : Ty) :
    P (some f) (modify (·.append f name ty))

namespace Kept

variable {P : Option FrameId → ∀ {α : Type}, CheckM α → Prop} (hP : Kept P)
include hP

/-! ## Steps -/

theorem lookup? (f : FrameId) (name : String) : P none (lookup? f name) :=
  hP.read fun _ => hP.pure _

theorem lookup (f : FrameId) (name : String) : P none (lookup f name) := by
  refine hP.bind (hP.lookup? f name) fun ty => ?_
  cases ty with
  | some ty => exact hP.pure ty
  | none => exact hP.throw id

theorem requireFree (f : FrameId) (name : String) : P none (requireFree f name) := by
  refine hP.read fun s => ?_
  split
  · exact hP.throw id
  · exact hP.pure ()

theorem define (f : FrameId) (name : String) (ty : Ty) : P (some f) (define f name ty) :=
  hP.bind (hP.weaken _ (hP.requireFree f name)) fun _ => hP.append f name ty

theorem defineAll (f : FrameId) (bindings : List (String × Ty)) :
    P (some f) (defineAll f bindings) := by
  induction bindings with
  | nil => exact hP.weaken _ (hP.pure ())
  | cons b rest ih => exact hP.bind (hP.define f b.1 b.2) fun _ => ih

theorem storeless : Storeless (@P none) := ⟨hP.pure, hP.throw, hP.bind⟩

theorem operator (op : Operator) (left right : Ty) :
    P none (result (op.resultTy left right)) := hP.storeless.operator op left right

theorem requireSubtype (found expected : Ty) : P none (requireSubtype found expected) :=
  hP.storeless.requireSubtype found expected

theorem declaredTy? (name : Option String) : P none (declaredTy? name) :=
  hP.storeless.declaredTy? name

theorem bindingTy (declared : Option Ty) (value : Option TypedExpr) :
    P none (bindingTy declared value) := hP.storeless.bindingTy declared value

theorem requireUnreserved (name : Option String) : P none (requireUnreserved name) :=
  hP.storeless.requireUnreserved name

theorem membersOf (ty : Ty) : P none (membersOf ty) := hP.storeless.membersOf ty

theorem memberTy (members : FrameId) (name : String) : P none (memberTy members name) := by
  refine hP.read fun s => ?_
  split
  · exact hP.pure _
  · exact hP.throw id

theorem callable (name : String) (count : Nat) (ty : Ty) : P none (callable name count ty) :=
  hP.storeless.callable name count ty

theorem signature (d : Definition) : P none (signature d) := hP.storeless.signature d

theorem registerMethods (members : FrameId) (methods : List Definition) :
    P (some members) (registerMethods members methods) := by
  induction methods with
  | nil => exact hP.weaken _ (hP.pure [])
  | cons d rest ih =>
    refine hP.bind (hP.weaken _ (hP.requireFree members d.name)) fun _ => ?_
    refine hP.bind (hP.weaken _ (hP.signature d)) fun s => ?_
    exact hP.bind (hP.define members d.name s.ty) fun _ => hP.bind ih fun _ =>
      hP.weaken _ (hP.pure _)

/-- Among the frames that exist, at most the one that it is checked in gets the name of a statement.
-/
theorem of_home {α : Type} {x : CheckM α} {s : Stmt} {f : FrameId} (h : P (s.home f) x) :
    P (some f) x := by
  cases s with
  | declare d => exact h
  | define d => exact h
  | _ => exact hP.weaken _ h

/-! ## Trees -/

mutual

theorem expr (f : FrameId) : ∀ e : Expr, P none (expr f e)
  | .literal value => by
    rw [Check.expr]
    exact hP.pure _
  | .group inner => by
    rw [Check.expr]
    exact hP.bind (expr f inner) fun _ => hP.pure _
  | .binary op left right => by
    rw [Check.expr]
    refine hP.bind (expr f left) fun l => hP.bind (expr f right) fun r => ?_
    exact hP.bind (hP.operator op l.ty r.ty) fun _ => hP.pure _
  | .variable name => by
    rw [Check.expr]
    exact hP.bind (hP.lookup f name) fun _ => hP.pure _
  | .property receiver name => by
    rw [Check.expr]
    refine hP.bind (expr f receiver) fun r => hP.bind (hP.membersOf r.ty) fun members => ?_
    exact hP.bind (hP.memberTy members name) fun _ => hP.pure _
  | .call name arguments => by
    rw [Check.expr]
    refine hP.bind (hP.lookup f name) fun target => hP.bind (hP.callable name _ target) ?_
    rintro ⟨params, returns⟩
    exact hP.bind (exprs f arguments params) fun _ => hP.pure _
  | .method receiver name arguments => by
    rw [Check.expr]
    refine hP.bind (expr f receiver) fun r => hP.bind (hP.membersOf r.ty) fun members => ?_
    refine hP.bind (hP.memberTy members name) fun target => ?_
    refine hP.bind (hP.callable name _ target) ?_
    rintro ⟨params, returns⟩
    exact hP.bind (exprs f arguments params) fun _ => hP.pure _
  | .object name fields methods => by
    rw [Check.expr]
    refine hP.bind (hP.requireUnreserved name) fun _ => hP.opened none fun members => ?_
    refine hP.bind (objectFields f members fields) fun _ => ?_
    refine hP.bind (hP.registerMethods members methods) fun signatures => ?_
    refine hP.bind (hP.weaken _ (objectMethods f (.object members) methods signatures)) fun _ => ?_
    exact hP.weaken _ (hP.pure _)

theorem exprs (f : FrameId) : ∀ (es : List Expr) (params : List Ty), P none (exprs f es params)
  | e :: rest, param :: params => by
    rw [Check.exprs]
    refine hP.bind (expr f e) fun e => hP.bind (hP.requireSubtype e.ty param) fun _ => ?_
    exact hP.bind (exprs f rest params) fun _ => hP.pure _
  | [], _ => by
    rw [Check.exprs.eq_def]
    exact hP.pure []
  | _ :: _, [] => by
    rw [Check.exprs.eq_def]
    exact hP.pure []

theorem optionalExpr (f : FrameId) : ∀ e : Option Expr, P none (optionalExpr f e)
  | none => by
    rw [Check.optionalExpr]
    exact hP.pure none
  | some e => by
    rw [Check.optionalExpr]
    exact hP.bind (expr f e) fun _ => hP.pure _

theorem declaration (f : FrameId) : ∀ d : Declaration, P none (declaration f d)
  | ⟨name, typeName, value⟩ => by
    rw [Check.declaration]
    refine hP.bind (hP.declaredTy? typeName) fun declared => ?_
    refine hP.bind (optionalExpr f value) fun v => ?_
    exact hP.bind (hP.bindingTy declared v) fun _ => hP.pure _

theorem objectFields (f members : FrameId) : ∀ fields : List Declaration,
    P (some members) (objectFields f members fields)
  | [] => by
    rw [Check.objectFields]
    exact hP.weaken _ (hP.pure [])
  | d :: rest => by
    rw [Check.objectFields]
    refine hP.bind (hP.weaken _ (hP.requireFree members d.name)) fun _ => ?_
    refine hP.bind (hP.weaken _ (declaration f d)) fun t => ?_
    refine hP.bind (hP.define members t.name t.ty) fun _ => ?_
    exact hP.bind (objectFields f members rest) fun _ => hP.weaken _ (hP.pure _)

theorem objectMethods (f : FrameId) (this : Ty) :
    ∀ (methods : List Definition) (signatures : List Signature),
    P none (objectMethods f this methods signatures)
  | d :: rest, s :: signatures => by
    rw [Check.objectMethods]
    refine hP.bind (definition f (some this) d s) fun _ => ?_
    exact hP.bind (objectMethods f this rest signatures) fun _ => hP.pure _
  | [], _ => by
    rw [Check.objectMethods.eq_def]
    exact hP.pure []
  | _ :: _, [] => by
    rw [Check.objectMethods.eq_def]
    exact hP.pure []

theorem definition (f : FrameId) (this : Option Ty) :
    ∀ (d : Definition) (s : Signature), P none (definition f this d s)
  | ⟨name, parameters, returnType, body⟩, s => by
    rw [Check.definition]
    refine hP.opened (some f) fun frame => hP.bind (hP.defineAll frame _) fun _ => ?_
    exact hP.bind (stmts frame body) fun _ => hP.weaken _ (hP.pure _)

theorem stmt (f : FrameId) : ∀ s : Stmt, P (s.home f) (stmt f s)
  | .declare d => by
    rw [Check.stmt]
    refine hP.bind (hP.weaken _ (hP.requireFree f d.name)) fun _ => ?_
    refine hP.bind (hP.weaken _ (declaration f d)) fun t => ?_
    exact hP.bind (hP.define f t.name t.ty) fun _ => hP.weaken _ (hP.pure _)
  | .define d => by
    rw [Check.stmt]
    refine hP.bind (hP.weaken _ (hP.requireFree f d.name)) fun _ => ?_
    refine hP.bind (hP.weaken _ (hP.signature d)) fun s => ?_
    refine hP.bind (hP.define f d.name s.ty) fun _ => ?_
    exact hP.bind (hP.weaken _ (definition f none d s)) fun _ => hP.weaken _ (hP.pure _)
  | .branch condition thenBody elseBody => by
    rw [Check.stmt]
    refine hP.bind (expr f condition) fun t => hP.bind (hP.requireSubtype t.ty _) fun _ => ?_
    refine hP.opened (some f) fun thenFrame => hP.bind (stmts thenFrame thenBody) fun _ => ?_
    refine hP.weaken _ (hP.opened (some f) fun elseFrame => ?_)
    exact hP.bind (stmts elseFrame elseBody) fun _ => hP.weaken _ (hP.pure _)
  | .forEach name items body => by
    rw [Check.stmt]
    refine hP.bind (expr f items) fun t => hP.bind (hP.requireSubtype t.ty _) fun _ => ?_
    refine hP.opened (some f) fun frame => hP.bind (hP.define frame name .integer) fun _ => ?_
    exact hP.bind (stmts frame body) fun _ => hP.weaken _ (hP.pure _)
  | .ret value => by
    rw [Check.stmt]
    refine hP.bind (hP.lookup? f returnsName) fun returns => ?_
    cases returns with
    | none => exact hP.throw id
    | some returns =>
      refine hP.bind (optionalExpr f value) fun v => ?_
      exact hP.bind (hP.requireSubtype _ returns) fun _ => hP.pure _
  | .expression value => by
    rw [Check.stmt]
    exact hP.bind (expr f value) fun _ => hP.pure _
  | .assign (.variable name) value => by
    rw [Check.stmt]
    refine hP.bind (hP.lookup f name) fun ty => hP.bind (expr f value) fun t => ?_
    exact hP.bind (hP.requireSubtype t.ty ty) fun _ => hP.pure _
  | .assign (.property receiver name) value => by
    rw [Check.stmt]
    refine hP.bind (expr f receiver) fun r => hP.bind (hP.membersOf r.ty) fun members => ?_
    refine hP.bind (hP.memberTy members name) fun ty => hP.bind (expr f value) fun t => ?_
    exact hP.bind (hP.requireSubtype t.ty ty) fun _ => hP.pure _
  | .assign (.literal _) _ | .assign (.group _) _ | .assign (.binary _ _ _) _
  | .assign (.call _ _) _ | .assign (.method _ _ _) _ | .assign (.object _ _ _) _ => by
    rw [Check.stmt.eq_def]
    exact hP.throw id

theorem stmts (f : FrameId) : ∀ body : List Stmt, P (some f) (stmts f body)
  | [] => by
    rw [Check.stmts]
    exact hP.weaken _ (hP.pure [])
  | s :: rest => by
    rw [Check.stmts]
    refine hP.bind (hP.of_home (stmt f s)) fun _ => ?_
    exact hP.bind (stmts f rest) fun _ => hP.weaken _ (hP.pure _)

end

end Kept

/-! ## Confinement -/

/-- However `x` ends, names still have the types that they had, and names were added to the frame
`g` only. -/
def Confined (g : Option FrameId) {α : Type} (x : CheckM α) : Prop :=
  ∀ s : Store Ty, Store.Grows id g s (x s).state

theorem newFrame_run (p : Option FrameId) (s : Store Ty) :
    newFrame p s = .ok s.size (s.newFrame p).2 := rfl

theorem confined : Kept Confined where
  pure _ := fun s => .refl _ _ s
  throw _ := fun s => .refl _ _ s
  weaken g h := fun s => (h s).weaken g
  bind := by
    intro α β g x k hx hk s
    have hs := hx s
    rw [bind_run]
    cases h : x s with
    | ok a t =>
      rw [h] at hs
      exact hs.trans (hk a t)
    | error e t =>
      rw [h] at hs
      exact hs
  read h := fun s => h s s
  opened := by
    intro α p k hk s
    rw [bind_run_ok (newFrame_run p s)]
    exact (Store.Grows.newFrame id s p).enclosed le_rfl (hk s.size (s.newFrame p).2)
  append f name ty := fun s => .append _ s f name ty

theorem Confined.grows {g : Option FrameId} {α : Type} {x : CheckM α} (hx : Confined g x)
    {s t : Store Ty} {a : α} (h : x s = .ok a t) : Store.Grows id g s t := by
  have hs := hx s
  rw [h] at hs
  exact hs

end ObjectLang.Check
