import ObjectLang.Proofs.Eval.Completed
import ObjectLang.Proofs.Trace

/-!
# Traced evaluation

Evaluation that keeps a list of its moments. It follows the plain evaluator clause by clause: each
of the steps of a run is a moment, and so are the entering and the leaving of a call. There is a
record of every definition that becomes a function, of every function body that completes, and of
every object literal that becomes an object.
-/

namespace ObjectLang.Eval

/-- What comes about in the course of an evaluation. -/
inductive Event where
  /-- A definition has become a function. -/
  | defined (d : Definition) (isMethod : Bool) (id : FunctionId)
  /-- The statements of a function have completed. -/
  | completed (id : FunctionId) (completion : Completion)
  /-- An object literal has become an object with these members. -/
  | built (fields : List Declaration) (methods : List Definition) (members : FrameId)

/-- Counts a call as active, if its meter allows one more. -/
def allow (m : MeterId) : EvalM Unit := fun w =>
  if (w.meter m).limits.depth ≤ (w.meter m).depth then
    .error (.error (.callDepthExceeded (w.meter m).limits.depth)) w
  else .ok () (w.enter m)

theorem withCall_eq {α : Type} (m : MeterId) (body : EvalM α) :
    withCall m body = allow m >>= fun _ => closing (·.leave m) body := by
  funext w
  rw [withCall_run, bind_run, allow]
  split <;> rfl

namespace Traced

/-- A traced evaluation. -/
abbrev Run := TraceM Event Stop World

open TraceM

/-- What calls do. -/
abbrev Invoke := FunctionId → List Value → Run Value

def newClosure (c : Context) (d : Definition) (captured : FrameId) (isMethod : Bool) :
    Run FunctionId := do
  let id ← step (Eval.newClosure c d captured isMethod)
  mark (.defined d isMethod id)
  return id

def defineAll (f : FrameId) : List (String × Value) → Run Unit
  | [] => return ()
  | (name, v) :: rest => do
    step (define f name v)
    defineAll f rest

def objectMethods (c : Context) (members : FrameId) : List Definition → Run Unit
  | [] => return ()
  | d :: rest => do
    step (requireFree members d.name)
    let id ← newClosure c d c.frame true
    step (define members d.name (.function id))
    objectMethods c members rest

def forEach (body : Value → Run Completion) : List Value → Run Completion
  | [] => return .normal .nil
  | item :: rest => do
    match ← body item with
    | .normal _ => forEach body rest
    | .returned v => return .returned v

mutual

def expr (invoke : Invoke) (c : Context) (e : Expr) : Run Value := do
  step (tick c.meter)
  match e with
  | .literal value => return value.value
  | .group inner => expr invoke c inner
  | .binary op left right =>
    let a ← expr invoke c left
    match ← step (result (op.decidedBy a)) with
    | some v => return v
    | none =>
      let b ← expr invoke c right
      step do result (op.apply (← get).print a b)
  | .variable name => step (lookup c.frame name)
  | .property receiver name =>
    let object ← expr invoke c receiver
    let members ← step (membersOf object)
    step (member members name)
  | .call name arguments =>
    let target ← step (lookup c.frame name)
    let id ← step (callable name target)
    let arguments ← exprs invoke c arguments
    invoke id arguments
  | .method receiver name arguments =>
    let object ← expr invoke c receiver
    let members ← step (membersOf object)
    let target ← step (member members name)
    let id ← step (callable name target)
    let arguments ← exprs invoke c arguments
    invoke id (object :: arguments)
  | .object name fields methods =>
    let members ← step (newFrame c.frame)
    objectFields invoke { c with frame := members } fields
    objectMethods c members methods
    mark (.built fields methods members)
    return .object name members

def exprs (invoke : Invoke) (c : Context) : List Expr → Run (List Value)
  | [] => return []
  | e :: rest => do
    let v ← expr invoke c e
    return v :: (← exprs invoke c rest)

def optionalExpr (invoke : Invoke) (c : Context) : Option Expr → Run Value
  | none => return .nil
  | some e => expr invoke c e

def declaration (invoke : Invoke) (c : Context) : Declaration → Run Value
  | ⟨name, _, value⟩ => do
    step (requireFree c.frame name)
    let v ← optionalExpr invoke c value
    step (define c.frame name v)
    return v

def objectFields (invoke : Invoke) (c : Context) : List Declaration → Run Unit
  | [] => return ()
  | d :: rest => do
    let _ ← declaration invoke c d
    objectFields invoke c rest

def stmt (invoke : Invoke) (c : Context) (s : Stmt) : Run Completion := do
  step (tick c.meter)
  match s with
  | .declare d => return .normal (← declaration invoke c d)
  | .define d =>
    step (requireFree c.frame d.name)
    let id ← newClosure c d c.frame false
    step (define c.frame d.name (.function id))
    return .normal (.function id)
  | .branch condition thenBody elseBody =>
    let v ← expr invoke c condition
    let holds ← step (result v.truth)
    let frame ← step (newFrame c.frame)
    if holds then stmts invoke { c with frame := frame } .nil thenBody
    else stmts invoke { c with frame := frame } .nil elseBody
  | .forEach name items body =>
    let v ← expr invoke c items
    let items ← step (itemsOf v)
    forEach (fun item => do
      let frame ← step (newFrame c.frame)
      step (define frame name item)
      stmts invoke { c with frame := frame } .nil body) items
  | .ret value => return .returned (← optionalExpr invoke c value)
  | .expression value => return .normal (← expr invoke c value)
  | .assign target value =>
    match target with
    | .variable name =>
      let _ ← step (lookup c.frame name)
      let v ← expr invoke c value
      let _ ← step (set c.frame name v)
      return .normal v
    | .property receiver name =>
      let object ← expr invoke c receiver
      let members ← step (membersOf object)
      let _ ← step (member members name)
      let v ← expr invoke c value
      let _ ← step (setOwn members name v)
      return .normal v
    | _ => step (fail .invalidAssignmentTarget)

def stmts (invoke : Invoke) (c : Context) (last : Value) : List Stmt → Run Completion
  | [] => return .normal last
  | s :: rest => do
    match ← stmt invoke c s with
    | .normal v => stmts invoke c v rest
    | .returned v => return .returned v

end

def withCall {α : Type} (m : MeterId) (body : Run α) : Run α := do
  step (allow m)
  closing (fun r => r.next none (r.state.leave m)) body

def call (fuel : Nat) (id : FunctionId) (arguments : List Value) : Run Value := do
  let function := (← get).state.function id
  match function.code with
  | .host f => step (host function.name f arguments)
  | .closure c =>
    step (requireArguments function.name c.bindings arguments)
    withCall c.meter do
      match fuel with
      | 0 => throw .outOfFuel
      | fuel + 1 =>
        let frame ← step (newFrame c.captured)
        defineAll frame (c.bindings.zip arguments)
        let completion ← stmts (call fuel) ⟨frame, c.meter⟩ .nil c.body
        mark (.completed id completion)
        return completion.result

/-- What a traced call of a defined function runs while it counts as active. -/
def runBody (id : FunctionId) : Nat → Closure → List Value → Run Value
  | 0, _, _ => throw .outOfFuel
  | fuel + 1, c, arguments => do
    let frame ← step (newFrame c.captured)
    defineAll frame (c.bindings.zip arguments)
    let completion ← stmts (call fuel) ⟨frame, c.meter⟩ .nil c.body
    mark (.completed id completion)
    return completion.result

/-- What a traced call does once the function is found. -/
def applyFunction (fuel : Nat) (id : FunctionId) (function : Function) (arguments : List Value) :
    Run Value :=
  match function.code with
  | .host f => step (host function.name f arguments)
  | .closure c => do
    step (requireArguments function.name c.bindings arguments)
    withCall c.meter (runBody id fuel c arguments)

theorem call_eq (fuel : Nat) (id : FunctionId) (arguments : List Value) :
    call fuel id arguments =
      get >>= fun r => applyFunction fuel id (r.state.function id) arguments := by
  rw [call.eq_def]
  refine congrArg (get >>= ·) (funext fun r => ?_)
  obtain ⟨name, code⟩ := r.state.function id
  cases code with
  | host f => rfl
  | closure c => cases fuel <;> rfl

end Traced

/-! ## The frame of an object -/

section

variable {w w' : World} {c : Context} {names : List String}

theorem lists_define {f : FrameId} (hw : w.store.Lists f names) {name : String} {v : Value}
    (h : define f name v w = .ok () w') : w'.store.Lists f (names ++ [name]) := by
  obtain ⟨hname, rfl⟩ := define_eq_ok h
  rw [hw.names_eq] at hname
  exact hw.append hname v

/-- The fields of an object are its first members. -/
theorem lists_objectFields {invoke : Invoke}
    (hi : ∀ id arguments, Confined none (invoke id arguments)) :
    ∀ (fields : List Declaration) {names : List String} {w w' : World},
    w.store.Lists c.frame names → objectFields invoke c fields w = .ok () w' →
    w'.store.Lists c.frame (names ++ fields.map (·.name))
  | [], names, _, _, hw, h => by
    rw [objectFields] at h
    cases h
    rwa [List.map_nil, List.append_nil]
  | ⟨name, typeName, value⟩ :: rest, names, w, w', hw, h => by
    simp only [objectFields, declaration, bind_run_eq_ok_iff, pure_run_eq_ok_iff] at h
    obtain ⟨_, _, ⟨_, w₀, hfree, v, w₁, hvalue, _, w₂, hdefine, rfl, rfl⟩, hrest⟩ := h
    obtain ⟨-, rfl⟩ := requireFree_eq_ok hfree
    have hgrows := (Confined.optionalExpr hi c value w₀).store
    rw [hvalue] at hgrows
    have hw₂ := lists_define (hw.grows hgrows (by simp)) hdefine
    have hlists := lists_objectFields hi rest hw₂ hrest
    rwa [List.append_assoc] at hlists

/-- The methods of an object follow. -/
theorem lists_objectMethods {members : FrameId} {methods : List Definition}
    (hw : w.store.Lists members names) (h : objectMethods c members methods w = .ok () w') :
    w'.store.Lists members (names ++ methods.map (·.name)) := by
  induction methods generalizing names w with
  | nil =>
    cases h
    rwa [List.map_nil, List.append_nil]
  | cons d rest ih =>
    simp only [objectMethods, bind_run_eq_ok_iff] at h
    obtain ⟨_, w₀, hfree, id, w₁, hclosure, _, w₂, hdefine, hrest⟩ := h
    obtain ⟨-, rfl⟩ := requireFree_eq_ok hfree
    obtain ⟨-, rfl⟩ := newClosure_eq_ok hclosure
    have hlists := ih (lists_define (w := w₀.withFunction _) hw hdefine) hrest
    rwa [List.append_assoc] at hlists

end

/-- The frame that an event is about. -/
def Event.place : Event → Option FrameId
  | .built _ _ members => some members
  | _ => none

/-- What lasts when an event has come about: the members of an object. -/
def Event.Lasts : Event → Store Value → Prop
  | .built fields methods members, s =>
    s.Lists members (fields.map (·.name) ++ methods.map (·.name))
  | _, _ => True

theorem durable : Durable Prod.fst Event.place Event.Lasts where
  lt_size {e s} h f hf := by
    cases e with
    | built fields methods members =>
      cases hf
      exact h.lt_size
    | _ => cases hf
  grows {e g s t} h hgrows hg := by
    cases e with
    | built fields methods members => exact h.grows hgrows (hg members rfl)
    | _ => trivial

/-- A traced evaluation goes as the plain one, in which the frame `g` gets new names, and the
members of objects last. -/
abbrev Tracked (g : Option FrameId) {α : Type} (x' : Traced.Run α) (x : EvalM α) : Prop :=
  Tracks World.store Prod.fst Event.place Event.Lasts g x' x

theorem Confined.tracked {g : Option FrameId} {α : Type} {x : EvalM α} (h : Confined g x) :
    Tracked g (TraceM.step x) x :=
  .step durable fun w => (h w).store

theorem newFrame_tracked {α : Type} (p : FrameId) {k' : FrameId → Traced.Run α}
    {k : FrameId → EvalM α} (hk : ∀ f, Tracked (some f) (k' f) (k f)) :
    Tracked none (TraceM.step (newFrame p) >>= k') (newFrame p >>= k) :=
  .opened durable (p := fun _ => some p) (fun w => ⟨_, newFrame_run p w, rfl⟩) hk

theorem Confined.result {α : Type} (r : Except EvalError α) : Confined none (result r) := by
  intro w
  cases r <;> exact .refl none w

namespace Traced

theorem tracked_newClosure (c : Context) (d : Definition) (captured : FrameId) (isMethod : Bool)
    (g : Option FrameId) :
    Tracked g (newClosure c d captured isMethod) (Eval.newClosure c d captured isMethod) := by
  have h : Tracked g (newClosure c d captured isMethod)
      (Eval.newClosure c d captured isMethod >>= fun id => pure id) :=
    .mark id (((confined.newClosure trivial d captured isMethod)).tracked.weaken g)
      fun _ _ _ _ => ⟨trivial, fun _ hf => by cases hf⟩
  rwa [bind_pure] at h

theorem tracked_defineAll (f : FrameId) (bindings : List (String × Value)) :
    Tracked (some f) (defineAll f bindings) (Eval.defineAll f bindings) := by
  induction bindings with
  | nil => exact .pure ()
  | cons b rest ih => exact .bind (confined.define f b.1 b.2).tracked fun _ => ih

theorem tracked_objectMethods (c : Context) (members : FrameId) (methods : List Definition) :
    Tracked (some members) (objectMethods c members methods)
      (Eval.objectMethods c members methods) := by
  induction methods with
  | nil => exact .pure ()
  | cons d rest ih =>
    refine .bind ((confined.requireFree members d.name).tracked.weaken _) fun _ => ?_
    refine .bind (tracked_newClosure c d c.frame true _) fun id => ?_
    exact .bind (confined.define members d.name (.function id)).tracked fun _ => ih

theorem tracked_forEach {body' : Value → Run Completion} {body : Value → EvalM Completion}
    (h : ∀ v, Tracked none (body' v) (body v)) (items : List Value) :
    Tracked none (forEach body' items) (Eval.forEach body items) := by
  induction items with
  | nil => exact .pure _
  | cons item rest ih =>
    refine .bind (h item) fun completion => ?_
    cases completion with
    | normal _ => exact ih
    | returned v => exact .pure _

section Trees

set_option linter.unusedSectionVars false

variable {invoke' : Invoke} {invoke : Eval.Invoke}
  (hconfined : ∀ id arguments, Confined none (invoke id arguments))
  (hi : ∀ id arguments, Tracked none (invoke' id arguments) (invoke id arguments))
include hconfined hi

mutual

theorem tracked_expr (c : Context) : ∀ e : Expr,
    Tracked none (expr invoke' c e) (Eval.expr invoke c e)
  | .literal value => by
    rw [expr, Eval.expr]
    exact .bind (confined.tick _ trivial).tracked fun _ => .pure _
  | .group inner => by
    rw [expr, Eval.expr]
    exact .bind (confined.tick _ trivial).tracked fun _ => tracked_expr c inner
  | .binary op left right => by
    rw [expr, Eval.expr]
    refine .bind (confined.tick _ trivial).tracked fun _ => .bind (tracked_expr c left) fun a => ?_
    refine .bind (Confined.result _).tracked fun decided => ?_
    cases decided with
    | some v => exact .pure v
    | none =>
      refine .bind (tracked_expr c right) fun b => Confined.tracked ?_
      exact fun w => Confined.result _ w
  | .variable name => by
    rw [expr, Eval.expr]
    exact .bind (confined.tick _ trivial).tracked fun _ => (confined.lookup _ _).tracked
  | .property receiver name => by
    rw [expr, Eval.expr]
    refine .bind (confined.tick _ trivial).tracked fun _ => .bind (tracked_expr c receiver) ?_
    exact fun object => .bind (confined.membersOf object).tracked fun members =>
      (confined.member members name).tracked
  | .call name arguments => by
    rw [expr, Eval.expr]
    refine .bind (confined.tick _ trivial).tracked fun _ => ?_
    refine .bind (confined.lookup _ _).tracked fun target => ?_
    refine .bind (confined.callable _ target).tracked fun id => ?_
    exact .bind (tracked_exprs c arguments) fun vs => hi id vs
  | .method receiver name arguments => by
    rw [expr, Eval.expr]
    refine .bind (confined.tick _ trivial).tracked fun _ => .bind (tracked_expr c receiver) ?_
    refine fun object => .bind (confined.membersOf object).tracked fun members => ?_
    refine .bind (confined.member members name).tracked fun target => ?_
    refine .bind (confined.callable _ target).tracked fun id => ?_
    exact .bind (tracked_exprs c arguments) fun vs => hi id (object :: vs)
  | .object name fields methods => by
    rw [expr, Eval.expr]
    refine .bind (confined.tick _ trivial).tracked fun _ => ?_
    have hfill (f : FrameId) : Tracked (some f)
        (do
          objectFields invoke' { c with frame := f } fields
          objectMethods c f methods
          return f)
        (do
          Eval.objectFields invoke { c with frame := f } fields
          Eval.objectMethods c f methods
          return f) :=
      .bind (tracked_objectFields { c with frame := f } fields) fun _ =>
        .bind (tracked_objectMethods c f methods) fun _ => .pure f
    have hmarked := (newFrame_tracked c.frame hfill).mark (e := .built fields methods)
      (Value.object name) ?_
    · simpa only [bind_assoc, pure_bind] using hmarked
    · intro w f w' hrun
      rw [bind_run_ok (newFrame_run c.frame w)] at hrun
      simp only [bind_run_eq_ok_iff, pure_run_eq_ok_iff] at hrun
      obtain ⟨_, _, hfields, _, _, hmethods, rfl, rfl⟩ := hrun
      have hlists := lists_objectFields hconfined fields (.newFrame w.store (some c.frame)) hfields
      refine ⟨lists_objectMethods hlists hmethods, ?_⟩
      rintro _ ⟨⟩
      exact le_rfl

theorem tracked_exprs (c : Context) : ∀ es : List Expr,
    Tracked none (exprs invoke' c es) (Eval.exprs invoke c es)
  | [] => by
    rw [exprs, Eval.exprs]
    exact .pure _
  | e :: rest => by
    rw [exprs, Eval.exprs]
    exact .bind (tracked_expr c e) fun v => .bind (tracked_exprs c rest) fun _ => .pure _

theorem tracked_optionalExpr (c : Context) : ∀ e : Option Expr,
    Tracked none (optionalExpr invoke' c e) (Eval.optionalExpr invoke c e)
  | none => by
    rw [optionalExpr, Eval.optionalExpr]
    exact .pure _
  | some e => by
    rw [optionalExpr, Eval.optionalExpr]
    exact tracked_expr c e

theorem tracked_declaration (c : Context) : ∀ d : Declaration,
    Tracked (some c.frame) (declaration invoke' c d) (Eval.declaration invoke c d)
  | ⟨name, _, value⟩ => by
    rw [declaration, Eval.declaration]
    refine .bind ((confined.requireFree _ _).tracked.weaken _) fun _ => ?_
    refine .bind ((tracked_optionalExpr c value).weaken _) fun v => ?_
    exact .bind (confined.define _ _ _).tracked fun _ => .pure v

theorem tracked_objectFields (c : Context) : ∀ fields : List Declaration,
    Tracked (some c.frame) (objectFields invoke' c fields) (Eval.objectFields invoke c fields)
  | [] => by
    rw [objectFields, Eval.objectFields]
    exact .pure ()
  | d :: rest => by
    rw [objectFields, Eval.objectFields]
    exact .bind (tracked_declaration c d) fun _ => tracked_objectFields c rest

theorem tracked_stmt (c : Context) : ∀ s : Stmt,
    Tracked (some c.frame) (stmt invoke' c s) (Eval.stmt invoke c s)
  | .declare d => by
    rw [stmt, Eval.stmt]
    refine .bind ((confined.tick _ trivial).tracked.weaken _) fun _ => ?_
    exact .bind (tracked_declaration c d) fun _ => .pure _
  | .define d => by
    rw [stmt, Eval.stmt]
    refine .bind ((confined.tick _ trivial).tracked.weaken _) fun _ => ?_
    refine .bind ((confined.requireFree _ _).tracked.weaken _) fun _ => ?_
    refine .bind (tracked_newClosure c d c.frame false _) fun id => ?_
    exact .bind (confined.define _ _ _).tracked fun _ => .pure _
  | .branch condition thenBody elseBody => by
    rw [stmt, Eval.stmt]
    refine .weaken (.bind (confined.tick _ trivial).tracked fun _ => ?_) _
    refine .bind (tracked_expr c condition) fun v => ?_
    refine .bind (Confined.result _).tracked fun holds => ?_
    refine newFrame_tracked c.frame fun frame => ?_
    cases holds with
    | true => exact tracked_stmts { c with frame := frame } .nil thenBody
    | false => exact tracked_stmts { c with frame := frame } .nil elseBody
  | .forEach name items body => by
    rw [stmt, Eval.stmt]
    refine .weaken (.bind (confined.tick _ trivial).tracked fun _ => ?_) _
    refine .bind (tracked_expr c items) fun v => .bind (confined.itemsOf v).tracked fun vs => ?_
    refine tracked_forEach (fun item => ?_) vs
    refine newFrame_tracked c.frame fun frame => ?_
    exact .bind (confined.define frame name item).tracked fun _ =>
      tracked_stmts { c with frame := frame } .nil body
  | .ret value => by
    rw [stmt, Eval.stmt]
    refine .weaken (.bind (confined.tick _ trivial).tracked fun _ => ?_) _
    exact .bind (tracked_optionalExpr c value) fun _ => .pure _
  | .expression value => by
    rw [stmt, Eval.stmt]
    refine .weaken (.bind (confined.tick _ trivial).tracked fun _ => ?_) _
    exact .bind (tracked_expr c value) fun _ => .pure _
  | .assign (.variable name) value => by
    rw [stmt, Eval.stmt]
    refine .weaken (.bind (confined.tick _ trivial).tracked fun _ => ?_) _
    refine .bind (confined.lookup _ _).tracked fun _ => .bind (tracked_expr c value) fun v => ?_
    exact .bind (confined.set _ _ _).tracked fun _ => .pure _
  | .assign (.property receiver name) value => by
    rw [stmt, Eval.stmt]
    refine .weaken (.bind (confined.tick _ trivial).tracked fun _ => ?_) _
    refine .bind (tracked_expr c receiver) fun object => ?_
    refine .bind (confined.membersOf object).tracked fun members => ?_
    refine .bind (confined.member members name).tracked fun _ => ?_
    refine .bind (tracked_expr c value) fun v => ?_
    exact .bind (confined.setOwn members name v).tracked fun _ => .pure _
  | .assign (.literal _) _ | .assign (.group _) _ | .assign (.binary _ _ _) _
  | .assign (.call _ _) _ | .assign (.method _ _ _) _ | .assign (.object _ _ _) _ => by
    rw [stmt.eq_def, Eval.stmt.eq_def]
    refine .weaken (.bind (confined.tick _ trivial).tracked fun _ => ?_) _
    exact (confined.fail _ id).tracked

theorem tracked_stmts (c : Context) (last : Value) : ∀ body : List Stmt,
    Tracked (some c.frame) (stmts invoke' c last body) (Eval.stmts invoke c last body)
  | [] => by
    rw [stmts, Eval.stmts]
    exact .pure _
  | s :: rest => by
    rw [stmts, Eval.stmts]
    refine .bind (tracked_stmt c s) fun completion => ?_
    cases completion with
    | normal v => exact tracked_stmts c v rest
    | returned v => exact .pure _

end

end Trees

/-- Every literal that becomes an object is recorded when it does. -/
theorem past_of_object {invoke : Invoke} {c : Context} {name : Option String}
    {fields : List Declaration} {methods : List Definition} {r r' : Trace Event World} {v : Value}
    (h : expr invoke c (.object name fields methods) r = .ok v r') :
    ∃ members earlier, v = .object name members ∧
      r'.past = ⟨some (.built fields methods members), r'.state⟩ :: earlier := by
  simp only [expr, bind_run_eq_ok_iff, pure_run_eq_ok_iff] at h
  obtain ⟨_, _, -, members, _, -, _, _, -, _, r₁, -, _, _, hmark, rfl, rfl⟩ := h
  cases hmark
  exact ⟨members, r₁.past, rfl, rfl⟩

/-! ## Calls -/

theorem tracked_withCall {α : Type} (m : MeterId) {x' : Run α} {x : EvalM α}
    (h : Tracked none x' x) : Tracked none (withCall m x') (Eval.withCall m x) := by
  rw [withCall_eq]
  refine .bind (Confined.tracked fun w => ?_) fun _ =>
    h.closing durable (h := (·.leave m)) fun _ => rfl
  rw [allow]
  split
  · exact .refl none w
  · exact .modifyMeter w m fun _ => le_rfl

theorem tracked_call (fuel : Nat) (id : FunctionId) (arguments : List Value) :
    Tracked none (call fuel id arguments) (Eval.call fuel id arguments) := by
  have happly (function : Function) : Tracked none (applyFunction fuel id function arguments)
      (Eval.applyFunction fuel function arguments) := by
    obtain ⟨name, code⟩ := function
    cases code with
    | host f => exact (confined.host name f arguments).tracked
    | closure c =>
      refine .bind (confined.requireArguments name _ arguments).tracked fun _ => ?_
      refine tracked_withCall c.meter ?_
      cases fuel with
      | zero => exact .throw _
      | succ fuel =>
        refine newFrame_tracked c.captured fun frame => ?_
        refine .bind (tracked_defineAll frame _) fun _ => ?_
        refine .mark Completion.result ?_ fun _ _ _ _ => ⟨trivial, fun _ hf => by cases hf⟩
        exact tracked_stmts (call_confined fuel) (tracked_call fuel) ⟨frame, c.meter⟩ .nil c.body
  rw [call_eq, Eval.call_eq]
  exact .read fun w => happly (w.function id)

/-- Every call of a defined function that completes is recorded with its result, just before it
stops to count as active. -/
theorem past_of_call {fuel : Nat} {id : FunctionId} {arguments : List Value}
    {r r' : Trace Event World} {v : Value} {name : String} {c : Closure}
    (hc : r.state.function id = ⟨name, .closure c⟩) (h : call fuel id arguments r = .ok v r') :
    ∃ completion w earlier, v = completion.result ∧
      r'.past = ⟨none, r'.state⟩ :: ⟨some (.completed id completion), w⟩ :: earlier := by
  rw [call_eq, get_bind_run, hc] at h
  obtain ⟨_, r₁, -, hcall⟩ := bind_run_eq_ok_iff.mp h
  obtain ⟨_, r₂, -, hbody⟩ := bind_run_eq_ok_iff.mp hcall
  cases hrun : runBody id fuel c arguments r₂ with
  | error e r₃ =>
    rw [closing, hrun] at hbody
    cases hbody
  | ok v' r₃ =>
    rw [closing, hrun] at hbody
    cases hbody
    cases fuel with
    | zero => cases hrun
    | succ fuel =>
      simp only [runBody, bind_run_eq_ok_iff, pure_run_eq_ok_iff] at hrun
      obtain ⟨_, _, -, _, _, -, completion, r₄, -, _, _, hmark, rfl, rfl⟩ := hrun
      cases hmark
      exact ⟨completion, r₄.state, r₄.past, rfl, rfl⟩

end Traced

end ObjectLang.Eval
