import ObjectLang.Proofs.Eval.Growth

/-!
# Evaluators with a current frame

`ObjectLang.Eval` hands the context to every expression and statement, so that no construct could
forget to give a frame back. An `Evaluator` keeps its current frame in its state instead. A block,
an iteration and the fields of an object make a frame the current one, and a guard puts the previous
frame back however the part under it ends.

Both ways come to the same: an evaluator that runs a tree does what `ObjectLang.Eval` does in the
context that the evaluator starts in, and ends in that context, be it with a value, with a return or
with a failure.
-/

namespace ObjectLang

/-- An evaluator at work: where it stands, and the world that it works on. -/
structure Evaluator where
  context : Context
  world : World

/-- A run of an evaluator, which may leave it in another frame. -/
abbrev EvaluatorM := EStateM Stop Evaluator

namespace Evaluator

open Eval (Invoke)

/-- A step that depends on the current frame and leaves it alone. -/
def lift {α : Type} (x : Context → EvalM α) : EvaluatorM α := fun v =>
  (x v.context v.world).mapState fun w => ⟨v.context, w⟩

/-- Runs `body` with `frame` as the current frame. The guard puts the previous one back however the
body ends. -/
def within {α : Type} (frame : FrameId) (body : EvaluatorM α) : EvaluatorM α := fun v =>
  let previous := v.context.frame
  (body { v with context := { v.context with frame := frame } }).mapState fun v =>
    { v with context := { v.context with frame := previous } }

/-- Runs `body` for each item in turn until it returns. -/
def forEach (body : Value → EvaluatorM Completion) : List Value → EvaluatorM Completion
  | [] => return .normal .nil
  | item :: rest => do
    match ← body item with
    | .normal _ => forEach body rest
    | .returned v => return .returned v

mutual

/-- Evaluates an expression in the current frame. -/
def expr (invoke : Invoke) : Expr → EvaluatorM Value
  | .literal value => do
    lift (Eval.tick ·.meter)
    return value.value
  | .group inner => do
    lift (Eval.tick ·.meter)
    expr invoke inner
  | .binary op left right => do
    lift (Eval.tick ·.meter)
    let a ← expr invoke left
    match ← lift fun _ => Eval.result (op.decidedBy a) with
    | some v => return v
    | none =>
      let b ← expr invoke right
      lift fun _ => do Eval.result (op.apply (← get).print a b)
  | .variable name => do
    lift (Eval.tick ·.meter)
    lift (Eval.lookup ·.frame name)
  | .property receiver name => do
    lift (Eval.tick ·.meter)
    let object ← expr invoke receiver
    let members ← lift fun _ => Eval.membersOf object
    lift fun _ => Eval.member members name
  | .call name arguments => do
    lift (Eval.tick ·.meter)
    let target ← lift (Eval.lookup ·.frame name)
    let id ← lift fun _ => Eval.callable name target
    let arguments ← exprs invoke arguments
    lift fun _ => invoke id arguments
  | .method receiver name arguments => do
    lift (Eval.tick ·.meter)
    let object ← expr invoke receiver
    let members ← lift fun _ => Eval.membersOf object
    let target ← lift fun _ => Eval.member members name
    let id ← lift fun _ => Eval.callable name target
    let arguments ← exprs invoke arguments
    lift fun _ => invoke id (object :: arguments)
  | .object name fields methods => do
    lift (Eval.tick ·.meter)
    let members ← lift (Eval.newFrame ·.frame)
    within members (objectFields invoke fields)
    lift (Eval.objectMethods · members methods)
    return .object name members

def exprs (invoke : Invoke) : List Expr → EvaluatorM (List Value)
  | [] => return []
  | e :: rest => do
    let v ← expr invoke e
    return v :: (← exprs invoke rest)

def optionalExpr (invoke : Invoke) : Option Expr → EvaluatorM Value
  | none => return .nil
  | some e => expr invoke e

/-- Evaluates a declaration and binds its name in the current frame. -/
def declaration (invoke : Invoke) : Declaration → EvaluatorM Value
  | ⟨name, _, value⟩ => do
    lift (Eval.requireFree ·.frame name)
    let v ← optionalExpr invoke value
    lift (Eval.define ·.frame name v)
    return v

/-- Evaluates the fields of an object; the current frame is the frame of members. -/
def objectFields (invoke : Invoke) : List Declaration → EvaluatorM Unit
  | [] => return ()
  | d :: rest => do
    let _ ← declaration invoke d
    objectFields invoke rest

/-- Runs a statement in the current frame. -/
def stmt (invoke : Invoke) : Stmt → EvaluatorM Completion
  | .declare d => do
    lift (Eval.tick ·.meter)
    return .normal (← declaration invoke d)
  | .define d => do
    lift (Eval.tick ·.meter)
    lift (Eval.requireFree ·.frame d.name)
    let id ← lift fun c => Eval.newClosure c d c.frame false
    lift (Eval.define ·.frame d.name (.function id))
    return .normal (.function id)
  | .branch condition thenBody elseBody => do
    lift (Eval.tick ·.meter)
    let v ← expr invoke condition
    let holds ← lift fun _ => Eval.result v.truth
    let frame ← lift (Eval.newFrame ·.frame)
    if holds then within frame (stmts invoke .nil thenBody)
    else within frame (stmts invoke .nil elseBody)
  | .forEach name items body => do
    lift (Eval.tick ·.meter)
    let v ← expr invoke items
    let items ← lift fun _ => Eval.itemsOf v
    forEach (fun item => do
      let frame ← lift (Eval.newFrame ·.frame)
      lift fun _ => Eval.define frame name item
      within frame (stmts invoke .nil body)) items
  | .ret value => do
    lift (Eval.tick ·.meter)
    return .returned (← optionalExpr invoke value)
  | .expression value => do
    lift (Eval.tick ·.meter)
    return .normal (← expr invoke value)
  | .assign (.variable name) value => do
    lift (Eval.tick ·.meter)
    let _ ← lift (Eval.lookup ·.frame name)
    let v ← expr invoke value
    let _ ← lift (Eval.set ·.frame name v)
    return .normal v
  | .assign (.property receiver name) value => do
    lift (Eval.tick ·.meter)
    let object ← expr invoke receiver
    let members ← lift fun _ => Eval.membersOf object
    let _ ← lift fun _ => Eval.member members name
    let v ← expr invoke value
    let _ ← lift fun _ => Eval.setOwn members name v
    return .normal v
  | .assign _ _ => do
    lift (Eval.tick ·.meter)
    lift fun _ => Eval.fail .invalidAssignmentTarget

/-- Runs statements one after another until one returns. -/
def stmts (invoke : Invoke) (last : Value) : List Stmt → EvaluatorM Completion
  | [] => return .normal last
  | s :: rest => do
    match ← stmt invoke s with
    | .normal v => stmts invoke v rest
    | .returned v => return .returned v

end

/-- What an evaluator of its own does to the world before it is dropped. -/
def fresh {α : Type} (c : Context) (v : EvaluatorM α) : EvalM α := fun w =>
  (v ⟨c, w⟩).mapState world

/-- Runs a function on its arguments. The body of a defined function runs in an evaluator of its
own, so the frame of the caller is out of reach. -/
def call (fuel : Nat) (id : FunctionId) (arguments : List Value) : EvalM Value := do
  let function := (← get).function id
  match function.code with
  | .host f => Eval.host function.name f arguments
  | .closure c =>
    Eval.requireArguments function.name c.bindings arguments
    Eval.withCall c.meter do
      match fuel with
      | 0 => throw .outOfFuel
      | fuel + 1 =>
        let frame ← Eval.newFrame c.captured
        Eval.defineAll frame (c.bindings.zip arguments)
        let completion ← fresh ⟨frame, c.meter⟩ (stmts (call fuel) .nil c.body)
        return completion.result

theorem stmt_assign_of_not_isTarget {invoke : Invoke} {target value : Expr}
    (h : ¬ target.IsTarget) :
    stmt invoke (.assign target value) =
      (do lift (Eval.tick ·.meter); lift fun _ => Eval.fail .invalidAssignmentTarget) :=
  match target, h with
  | .variable _, h | .property _ _, h => absurd trivial h
  | .literal _, _ | .group _, _ | .binary _ _ _, _ | .call _ _, _ | .method _ _ _, _
  | .object _ _ _, _ => rfl

/-! ## Guards give every frame back -/

/-- In the context `c` the evaluator does what `x` does, and ends in `c`, however it ends. -/
def Follows (c : Context) {α : Type} (v : EvaluatorM α) (x : EvalM α) : Prop :=
  ∀ w, v ⟨c, w⟩ = (x w).mapState fun w => ⟨c, w⟩

namespace Follows

variable {c : Context} {α β : Type}

theorem pure (a : α) : Follows c (pure a) (pure a) := fun _ => rfl

theorem lift (x : Context → EvalM α) : Follows c (lift x) (x c) := fun _ => rfl

theorem bind {v : EvaluatorM α} {x : EvalM α} {k : α → EvaluatorM β} {l : α → EvalM β}
    (hx : Follows c v x) (hk : ∀ a, Follows c (k a) (l a)) : Follows c (v >>= k) (x >>= l) := by
  intro w
  rw [bind_run, bind_run, hx w]
  cases x w with
  | ok a w' => exact hk a w'
  | error e w' => rfl

/-- Under a guard the frame is another one, after the guard it is the old one. -/
theorem within {frame : FrameId} {v : EvaluatorM α} {x : EvalM α}
    (hx : Follows ⟨frame, c.meter⟩ v x) : Follows c (within frame v) x := by
  intro w
  show (v ⟨⟨frame, c.meter⟩, w⟩).mapState _ = _
  rw [hx w]
  cases x w <;> rfl

theorem forEach {body : Value → EvaluatorM Completion} {body' : Value → EvalM Completion}
    (h : ∀ v, Follows c (body v) (body' v)) (items : List Value) :
    Follows c (forEach body items) (Eval.forEach body' items) := by
  induction items with
  | nil => exact .pure _
  | cons item rest ih =>
    refine (h item).bind fun completion => ?_
    cases completion with
    | normal _ => exact ih
    | returned v => exact .pure _

variable (invoke : Invoke)

mutual

theorem expr (c : Context) : ∀ e : Expr,
    Follows c (expr invoke e) (Eval.expr invoke c e)
  | .literal value => by
    rw [Evaluator.expr, Eval.expr]
    exact (lift _).bind fun _ => .pure _
  | .group inner => by
    rw [Evaluator.expr, Eval.expr]
    exact (lift _).bind fun _ => expr c inner
  | .binary op left right => by
    rw [Evaluator.expr, Eval.expr]
    refine (lift _).bind fun _ => (expr c left).bind fun a => (lift _).bind fun decided => ?_
    cases decided with
    | some v => exact .pure v
    | none => exact (expr c right).bind fun b => lift _
  | .variable name => by
    rw [Evaluator.expr, Eval.expr]
    exact (lift _).bind fun _ => lift _
  | .property receiver name => by
    rw [Evaluator.expr, Eval.expr]
    exact (lift _).bind fun _ => (expr c receiver).bind fun object => (lift _).bind fun _ => lift _
  | .call name arguments => by
    rw [Evaluator.expr, Eval.expr]
    refine (lift _).bind fun _ => (lift _).bind fun target => (lift _).bind fun id => ?_
    exact (exprs c arguments).bind fun arguments => lift _
  | .method receiver name arguments => by
    rw [Evaluator.expr, Eval.expr]
    refine (lift _).bind fun _ => (expr c receiver).bind fun object => (lift _).bind fun members => ?_
    refine (lift _).bind fun target => (lift _).bind fun id => ?_
    exact (exprs c arguments).bind fun arguments => lift _
  | .object name fields methods => by
    rw [Evaluator.expr, Eval.expr]
    refine (lift _).bind fun _ => (lift _).bind fun members => ?_
    refine (within (objectFields ⟨members, c.meter⟩ fields)).bind fun _ => ?_
    exact (lift _).bind fun _ => .pure _

theorem exprs (c : Context) : ∀ es : List Expr,
    Follows c (exprs invoke es) (Eval.exprs invoke c es)
  | [] => by
    rw [Evaluator.exprs, Eval.exprs]
    exact .pure _
  | e :: rest => by
    rw [Evaluator.exprs, Eval.exprs]
    exact (expr c e).bind fun v => (exprs c rest).bind fun vs => .pure _

theorem optionalExpr (c : Context) : ∀ e : Option Expr,
    Follows c (optionalExpr invoke e) (Eval.optionalExpr invoke c e)
  | none => by
    rw [Evaluator.optionalExpr, Eval.optionalExpr]
    exact .pure _
  | some e => by
    rw [Evaluator.optionalExpr, Eval.optionalExpr]
    exact expr c e

theorem declaration (c : Context) : ∀ d : Declaration,
    Follows c (declaration invoke d) (Eval.declaration invoke c d)
  | ⟨name, typeName, value⟩ => by
    rw [Evaluator.declaration, Eval.declaration]
    refine (lift _).bind fun _ => (optionalExpr c value).bind fun v => ?_
    exact (lift _).bind fun _ => .pure _

theorem objectFields (c : Context) : ∀ fields : List Declaration,
    Follows c (objectFields invoke fields) (Eval.objectFields invoke c fields)
  | [] => by
    rw [Evaluator.objectFields, Eval.objectFields]
    exact .pure _
  | d :: rest => by
    rw [Evaluator.objectFields, Eval.objectFields]
    exact (declaration c d).bind fun _ => objectFields c rest

theorem stmt (c : Context) : ∀ s : Stmt,
    Follows c (stmt invoke s) (Eval.stmt invoke c s)
  | .declare d => by
    rw [Evaluator.stmt, Eval.stmt]
    exact (lift _).bind fun _ => (declaration c d).bind fun _ => .pure _
  | .define d => by
    rw [Evaluator.stmt, Eval.stmt]
    refine (lift _).bind fun _ => (lift _).bind fun _ => (lift _).bind fun id => ?_
    exact (lift _).bind fun _ => .pure _
  | .branch condition thenBody elseBody => by
    rw [Evaluator.stmt, Eval.stmt]
    refine (lift _).bind fun _ => (expr c condition).bind fun v => (lift _).bind fun holds => ?_
    refine (lift _).bind fun frame => ?_
    cases holds with
    | true => exact within (stmts ⟨frame, c.meter⟩ .nil thenBody)
    | false => exact within (stmts ⟨frame, c.meter⟩ .nil elseBody)
  | .forEach name items body => by
    rw [Evaluator.stmt, Eval.stmt]
    refine (lift _).bind fun _ => (expr c items).bind fun v => (lift _).bind fun items => ?_
    refine forEach (fun item => ?_) items
    refine (lift _).bind fun frame => (lift _).bind fun _ => ?_
    exact within (stmts ⟨frame, c.meter⟩ .nil body)
  | .ret value => by
    rw [Evaluator.stmt, Eval.stmt]
    exact (lift _).bind fun _ => (optionalExpr c value).bind fun _ => .pure _
  | .expression value => by
    rw [Evaluator.stmt, Eval.stmt]
    exact (lift _).bind fun _ => (expr c value).bind fun _ => .pure _
  | .assign (.variable name) value => by
    rw [Evaluator.stmt, Eval.stmt]
    refine (lift _).bind fun _ => (lift _).bind fun _ => (expr c value).bind fun v => ?_
    exact (lift _).bind fun _ => .pure _
  | .assign (.property receiver name) value => by
    rw [Evaluator.stmt, Eval.stmt]
    refine (lift _).bind fun _ => (expr c receiver).bind fun object => (lift _).bind fun members => ?_
    refine (lift _).bind fun _ => (expr c value).bind fun v => ?_
    exact (lift _).bind fun _ => .pure _
  | .assign (.literal _) _ | .assign (.group _) _ | .assign (.binary _ _ _) _
  | .assign (.call _ _) _ | .assign (.method _ _ _) _ | .assign (.object _ _ _) _ => by
    rw [stmt_assign_of_not_isTarget id, Eval.stmt_assign_of_not_isTarget id]
    exact (lift _).bind fun _ => lift _

theorem stmts (c : Context) (last : Value) : ∀ body : List Stmt,
    Follows c (stmts invoke last body) (Eval.stmts invoke c last body)
  | [] => by
    rw [Evaluator.stmts, Eval.stmts]
    exact .pure _
  | s :: rest => by
    rw [Evaluator.stmts, Eval.stmts]
    refine (stmt c s).bind fun completion => ?_
    cases completion with
    | normal v => exact stmts c v rest
    | returned v => exact .pure _

end

end Follows

theorem Follows.fresh {c : Context} {α : Type} {v : EvaluatorM α} {x : EvalM α}
    (h : Follows c v x) : fresh c v = x := by
  funext w
  rw [Evaluator.fresh, h w]
  cases x w <;> rfl

/-- Calls do not depend on where an evaluator keeps its frame. -/
theorem call_eq (fuel : Nat) : call fuel = Eval.call fuel := by
  induction fuel with
  | zero =>
    funext id arguments
    unfold call Eval.call
    rfl
  | succ fuel ih =>
    funext id arguments
    unfold call Eval.call
    refine bind_congr fun w => ?_
    dsimp only
    cases (w.function id).code with
    | host f => rfl
    | closure c =>
      refine bind_congr fun _ => congrArg (Eval.withCall c.meter) ?_
      refine bind_congr fun frame => bind_congr fun _ => ?_
      rw [ih, (Follows.stmts _ _ _ _).fresh]

/-! ## Entry points -/

/-- Runs `body` with as many levels of calls as the meters of the world allow. -/
def withFreeDepth {α : Type} (body : Nat → EvaluatorM α) : EvaluatorM α := fun v =>
  body v.world.freeDepth v

def eval (e : Expr) : EvaluatorM Value := withFreeDepth fun fuel => expr (call fuel) e

def run (s : Stmt) : EvaluatorM Completion := withFreeDepth fun fuel => stmt (call fuel) s

/-- Runs statements one after another until one returns. -/
def runAll (body : List Stmt) : EvaluatorM Completion :=
  withFreeDepth fun fuel => stmts (call fuel) .nil body

def callFunction (id : FunctionId) (arguments : List Value) : EvaluatorM Value :=
  withFreeDepth fun fuel => lift fun _ => call fuel id arguments

theorem Follows.withFreeDepth {c : Context} {α : Type} {v : Nat → EvaluatorM α}
    {x : Nat → EvalM α} (h : ∀ fuel, Follows c (v fuel) (x fuel)) :
    Follows c (withFreeDepth v) (Eval.withFreeDepth x) :=
  fun w => h w.freeDepth w

theorem follows_eval (c : Context) (e : Expr) : Follows c (eval e) (e.eval c) :=
  .withFreeDepth fun fuel => by
    rw [call_eq]
    exact .expr _ c e

theorem follows_run (c : Context) (s : Stmt) : Follows c (run s) (s.run c) :=
  .withFreeDepth fun fuel => by
    rw [call_eq]
    exact .stmt _ c s

theorem follows_runAll (c : Context) (body : List Stmt) :
    Follows c (runAll body) (Stmt.runAll c body) :=
  .withFreeDepth fun fuel => by
    rw [call_eq]
    exact .stmts _ c .nil body

theorem follows_callFunction (c : Context) (id : FunctionId) (arguments : List Value) :
    Follows c (callFunction id arguments) (Value.callFunction id arguments) :=
  .withFreeDepth fun fuel => by
    rw [call_eq]
    exact .lift _

/-! ## Store discipline -/

/-- `v'` stands where `v` stood, on a later state of the world, in which only the frame `g` has got
new names. -/
structure Keeps (g : Option FrameId) (v v' : Evaluator) : Prop where
  context_eq : v'.context = v.context
  grows : v.world.Grows g v'.world

theorem Follows.keeps {v : Evaluator} {g : Option FrameId} {α : Type} {r : EvaluatorM α}
    {x : EvalM α} (h : Follows v.context r x) (hx : Eval.Confined g x) : v.Keeps g (r v).state := by
  have hv : r v = (x v.world).mapState fun w => ⟨v.context, w⟩ := h v.world
  rw [hv, EStateM.Result.state_mapState]
  exact ⟨rfl, hx v.world⟩

/-- Wherever an evaluator stands and however its run ends, it stands there again afterwards, and the
world has only grown. An expression and a call add no name to a frame that existed before. A
statement adds the name that it declares or defines, to the current frame, if it succeeds, and no
other name. -/
theorem store_discipline (v : Evaluator) :
    (∀ e, Follows v.context (eval e) (e.eval v.context) ∧ v.Keeps none (eval e v).state) ∧
    (∀ s, Follows v.context (run s) (s.run v.context) ∧
      v.Keeps (s.home v.context.frame) (run s v).state ∧
      ∀ f < v.world.store.size, (run s v).state.world.store.names f =
        v.world.store.names f ++
          if f = v.context.frame ∧ (run s v).isOk = true then s.binds else []) ∧
    (∀ body, Follows v.context (runAll body) (Stmt.runAll v.context body) ∧
      v.Keeps (some v.context.frame) (runAll body v).state) ∧
    ∀ id arguments,
      Follows v.context (callFunction id arguments) (Value.callFunction id arguments) ∧
      v.Keeps none (callFunction id arguments v).state := by
  have hcall (fuel : Nat) := Eval.call_confined fuel
  refine ⟨?_, ?_, ?_, ?_⟩
  · intro e
    have h := follows_eval v.context e
    exact ⟨h, h.keeps fun w => Eval.Confined.expr (hcall w.freeDepth) v.context e w⟩
  · intro s
    have h := follows_run v.context s
    refine ⟨h, h.keeps fun w => Eval.Confined.stmt (hcall w.freeDepth) v.context s w, ?_⟩
    intro f hf
    have hv : run s v = (s.run v.context v.world).mapState fun w => ⟨v.context, w⟩ := h v.world
    rw [hv, EStateM.Result.state_mapState, EStateM.Result.isOk_mapState]
    exact Eval.names_stmt (hcall v.world.freeDepth) v.context s v.world hf
  · intro body
    have h := follows_runAll v.context body
    exact ⟨h, h.keeps fun w => Eval.Confined.stmts (hcall w.freeDepth) v.context .nil body w⟩
  · intro id arguments
    have h := follows_callFunction v.context id arguments
    exact ⟨h, h.keeps fun w => hcall w.freeDepth id arguments w⟩

end Evaluator

end ObjectLang
