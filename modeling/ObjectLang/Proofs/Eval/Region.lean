import ObjectLang.Proofs.ObjectShape
import ObjectLang.Proofs.Program.Vocabulary

/-!
# What a run can get at

A run starts in a frame, and from there it gets at frames, functions and objects by way of parents,
bindings and the frames that functions remember. A `Region` is a part of the world, and a world
`Encloses` a region if nothing in the region leads out of it: its functions are written in a
vocabulary, and so are the names by which its frames are asked.

A run of a tree that is written in the vocabulary does not leave the region. `Built` says how such a
run is put together from single steps, and `Permitted` what these steps are. So what is to be shown
of all runs in a region is shown of the steps, and then for `Built` by one induction. -/

namespace ObjectLang

/-! ## Regions -/

/-- A part of a world. -/
structure Region where
  frames : Set FrameId
  functions : Set FunctionId
  /-- The frames of objects. -/
  members : Set FrameId
  members_subset : members ⊆ frames

/-- The whole world. -/
def Region.whole : Region := ⟨Set.univ, Set.univ, Set.univ, subset_rfl⟩

mutual

/-- The value leads to nothing outside of the region. -/
def Value.Within (S : Region) : Value → Prop
  | .list items => Value.AllWithin S items
  | .function id => id ∈ S.functions
  | .object _ members => members ∈ S.members
  | .nil | .boolean _ | .integer _ | .decimal _ | .string _ => True

/-- The values lead to nothing outside of the region. -/
def Value.AllWithin (S : Region) : List Value → Prop
  | [] => True
  | v :: rest => v.Within S ∧ Value.AllWithin S rest

end

theorem Value.allWithin_iff {S : Region} {vs : List Value} :
    Value.AllWithin S vs ↔ ∀ v ∈ vs, v.Within S := by
  induction vs with
  | nil => simp [Value.AllWithin]
  | cons v rest ih => simp [Value.AllWithin, ih]

mutual

theorem Value.within_whole : ∀ v : Value, v.Within .whole
  | .list items => Value.allWithin_whole items
  | .function _ | .object _ _ => trivial
  | .nil | .boolean _ | .integer _ | .decimal _ | .string _ => trivial

theorem Value.allWithin_whole : ∀ vs : List Value, Value.AllWithin .whole vs
  | [] => trivial
  | v :: rest => ⟨v.within_whole, Value.allWithin_whole rest⟩

end

/-- What a statement completes with leads to nothing outside of the region. -/
def Completion.Within (S : Region) : Completion → Prop
  | .normal v => v.Within S
  | .returned v => v.Within S

/-- The function is written in the vocabulary, with the receiver and the parameters, and remembers
a frame of the region. -/
structure Closure.WrittenIn (V : Vocabulary) (S : Region) (c : Closure) : Prop where
  bindings : ∀ name ∈ c.bindings, name ∈ V.names
  body : WrittenInStmts V c.body
  captured : c.captured ∈ S.frames

/-- So is the code of the function, if it is not the host's. -/
def Function.WrittenIn (V : Vocabulary) (S : Region) (function : Function) : Prop :=
  ∀ c, function.code = .closure c → c.WrittenIn V S

/-- Nothing in the region leads out of it, for one who asks its frames for names of the vocabulary
only. Objects show all of their members. What does not exist yet counts as part of the region. -/
structure World.Encloses (w : World) (V : Vocabulary) (S : Region) : Prop where
  parent : ∀ f ∈ S.frames, ∀ p, w.store.parent? f = some p → p ∈ S.frames
  bound : ∀ f ∈ S.frames, ∀ b ∈ w.store.bindings f, b.1 ∈ V.names ∨ f ∈ S.members → b.2.Within S
  code : ∀ id ∈ S.functions, (w.function id).WrittenIn V S
  newFrames : ∀ f, w.store.size ≤ f → f ∈ S.members
  newFunctions : ∀ id, w.functions.size ≤ id → id ∈ S.functions

/-! ## Operators -/

namespace Operator

variable {S : Region} {op : Operator} {a b v : Value}

theorem within_of_decidedBy (h : op.decidedBy a = .ok (some v)) : v.Within S := by
  cases op with
  | and | or =>
    cases a with
    | boolean value =>
      cases value <;> cases h
      trivial
    | _ => cases h
  | _ => cases h

theorem within_of_arithmetic (h : op.arithmetic a b = .ok v) : v.Within S := by
  unfold arithmetic at h
  split at h <;> try split at h
  all_goals cases h
  all_goals trivial

theorem within_of_ordering {test : Ordering → Bool} (h : op.ordering test a b = .ok v) :
    v.Within S := by
  unfold ordering at h
  split at h <;> cases h
  trivial

/-- What an operator gives leads to nothing. -/
theorem within_of_apply {print : Value → String} (h : op.apply print a b = .ok v) :
    v.Within S := by
  cases op with
  | add =>
    unfold apply addition at h
    dsimp only at h
    split at h
    · cases h
      trivial
    · exact within_of_arithmetic h
  | sub | mul | div => exact within_of_arithmetic h
  | less | lessEq | greater | greaterEq => exact within_of_ordering h
  | eq | notEq =>
    cases h
    trivial
  | and | or =>
    cases b with
    | boolean value =>
      cases h
      trivial
    | _ => cases h

end Operator

/-! ## Steps -/

namespace Eval

open TraceM

/-- The steps that a run in the region is made of, and what is known of their results. -/
inductive Permitted (V : Vocabulary) (S : Region) :
    ∀ {α : Type}, EvalM α → (α → Prop) → Prop where
  | tick (m : MeterId) : Permitted V S (tick m) fun _ => True
  | allow (m : MeterId) : Permitted V S (allow m) fun _ => True
  | outcome {α : Type} {r : Except EvalError α} {P : α → Prop} :
      (∀ a, r = .ok a → P a) → Permitted V S (result r) P
  | apply {op : Operator} {a b : Value} : a.Within S → b.Within S →
      Permitted V S (do result (op.apply (← get).print a b)) (·.Within S)
  | lookup {f : FrameId} {name : String} : f ∈ S.frames → name ∈ V.names →
      Permitted V S (lookup f name) (·.Within S)
  | member {members : FrameId} {name : String} : members ∈ S.members → name ∈ V.names →
      Permitted V S (member members name) (·.Within S)
  | newFrame {p : FrameId} : p ∈ S.frames → Permitted V S (newFrame p) (· ∈ S.frames ∩ S.members)
  | requireFree {f : FrameId} {name : String} : f ∈ S.frames → name ∈ V.names →
      Permitted V S (requireFree f name) fun _ => True
  | define {f : FrameId} {name : String} {v : Value} : f ∈ S.frames → name ∈ V.names →
      v.Within S → Permitted V S (define f name v) fun _ => True
  | newClosure {c : Context} {d : Definition} {captured : FrameId} {isMethod : Bool} :
      d.WrittenIn V → captured ∈ S.frames → (isMethod = true → thisName ∈ V.names) →
      Permitted V S (newClosure c d captured isMethod) (· ∈ S.functions)
  | set {f : FrameId} {name : String} {v : Value} : V.assigns → f ∈ S.frames → name ∈ V.names →
      v.Within S → Permitted V S (set f name v) fun _ => True
  | setOwn {members : FrameId} {name : String} {v : Value} : V.assigns → members ∈ S.members →
      name ∈ V.names → v.Within S → Permitted V S (setOwn members name v) fun _ => True
  | host {name : String} {f : HostFunction} {arguments : List Value} :
      (∀ v ∈ arguments, v.Within S) → Permitted V S (host name f arguments) (·.Within S)

/-- The ways to put such steps together. -/
inductive Built (V : Vocabulary) (S : Region) :
    ∀ {α : Type}, Traced.Run α → (α → Prop) → Prop where
  | pure {α : Type} {a : α} {P : α → Prop} : P a → Built V S (pure a) P
  | stop {α : Type} {e : Stop} {P : α → Prop} : Built V S (throw e) P
  | step {α : Type} {x : EvalM α} {P : α → Prop} : Permitted V S x P → Built V S (step x) P
  | mark (e : Event) : Built V S (mark e) fun _ => True
  | bind {α β : Type} {x : Traced.Run α} {k : α → Traced.Run β} {P : α → Prop} {Q : β → Prop} :
      Built V S x P → (∀ a, P a → Built V S (k a) Q) → Built V S (x >>= k) Q
  | function {α : Type} {id : FunctionId} {k : Function → Traced.Run α} {P : α → Prop} :
      id ∈ S.functions → (∀ function, function.WrittenIn V S → Built V S (k function) P) →
      Built V S (get >>= fun r => k (r.state.function id)) P
  | leaving {α : Type} {x : Traced.Run α} {P : α → Prop} (m : MeterId) : Built V S x P →
      Built V S (closing (fun r => r.next none (r.state.leave m)) x) P

variable {V : Vocabulary} {S : Region}

theorem permitted_membersOf {v : Value} (hv : v.Within S) :
    Permitted V S (membersOf v) (· ∈ S.members) := by
  cases v with
  | object name members => exact .outcome (r := .ok members) fun _ h => by cases h; exact hv
  | _ => exact .outcome (r := .error _) fun _ h => by cases h

theorem permitted_callable (name : String) {v : Value} (hv : v.Within S) :
    Permitted V S (callable name v) (· ∈ S.functions) := by
  cases v with
  | function id => exact .outcome (r := .ok id) fun _ h => by cases h; exact hv
  | _ => exact .outcome (r := .error _) fun _ h => by cases h

theorem permitted_itemsOf {v : Value} (hv : v.Within S) :
    Permitted V S (itemsOf v) fun items => ∀ item ∈ items, item.Within S := by
  cases v with
  | list items =>
    exact .outcome (r := .ok items) fun _ h => by
      cases h
      exact Value.allWithin_iff.mp hv
  | _ => exact .outcome (r := .error _) fun _ h => by cases h

theorem permitted_requireArguments (name : String) (bindings : List String)
    (arguments : List Value) :
    Permitted V S (requireArguments name bindings arguments) fun _ => True := by
  unfold requireArguments
  split
  · exact .outcome (r := .ok ()) fun _ _ => trivial
  · exact .outcome (r := .error _) fun _ _ => trivial

/-! ## Trees -/

namespace Traced

theorem built_newClosure (c : Context) {d : Definition} {captured : FrameId} {isMethod : Bool}
    (hd : d.WrittenIn V) (hcaptured : captured ∈ S.frames)
    (hthis : isMethod = true → thisName ∈ V.names) :
    Built V S (newClosure c d captured isMethod) (· ∈ S.functions) :=
  .bind (.step (.newClosure hd hcaptured hthis)) fun _ hid => .bind (.mark _) fun _ _ => .pure hid

theorem built_defineAll {f : FrameId} (hf : f ∈ S.frames) {bindings : List (String × Value)}
    (h : ∀ b ∈ bindings, b.1 ∈ V.names ∧ b.2.Within S) :
    Built V S (defineAll f bindings) fun _ => True := by
  induction bindings with
  | nil => exact .pure trivial
  | cons b rest ih =>
    obtain ⟨hname, hv⟩ := h b List.mem_cons_self
    exact .bind (.step (.define hf hname hv)) fun _ _ =>
      ih fun b' hb' => h b' (List.mem_cons_of_mem _ hb')

theorem built_objectMethods {c : Context} (hc : c.frame ∈ S.frames) {members : FrameId}
    (hmembers : members ∈ S.frames) (hthis : thisName ∈ V.names) {methods : List Definition}
    (h : WrittenInMethods V methods) :
    Built V S (objectMethods c members methods) fun _ => True := by
  induction methods with
  | nil => exact .pure trivial
  | cons d rest ih =>
    obtain ⟨hd, hrest⟩ := h
    have hname := (Definition.writtenIn_iff.mp hd).1
    refine .bind (.step (.requireFree hmembers hname)) fun _ _ => ?_
    refine .bind (built_newClosure c hd hc fun _ => hthis) fun id hid => ?_
    exact .bind (.step (.define hmembers hname hid)) fun _ _ => ih hrest

theorem built_forEach {body : Value → Run Completion}
    (h : ∀ v, v.Within S → Built V S (body v) (·.Within S)) {items : List Value}
    (hitems : ∀ item ∈ items, item.Within S) :
    Built V S (forEach body items) (·.Within S) := by
  induction items with
  | nil => exact .pure trivial
  | cons item rest ih =>
    refine .bind (h item (hitems item List.mem_cons_self)) fun completion hcompletion => ?_
    cases completion with
    | normal _ => exact ih fun item' hitem => hitems item' (List.mem_cons_of_mem _ hitem)
    | returned v => exact .pure hcompletion

section Trees

set_option linter.unusedSectionVars false

variable {invoke : Invoke} (hthis : thisName ∈ V.names)
  (hi : ∀ id ∈ S.functions, ∀ arguments : List Value, (∀ v ∈ arguments, v.Within S) →
    Built V S (invoke id arguments) (·.Within S))

include hthis hi

mutual

theorem built_expr {c : Context} (hc : c.frame ∈ S.frames) : ∀ e : Expr, e.WrittenIn V →
    Built V S (expr invoke c e) (·.Within S)
  | .literal value, _ => by
    rw [expr]
    refine .bind (.step (.tick _)) fun _ _ => .pure ?_
    cases value <;> trivial
  | .group inner, he => by
    rw [expr]
    exact .bind (.step (.tick _)) fun _ _ => built_expr hc inner he
  | .binary op left right, ⟨hleft, hright⟩ => by
    rw [expr]
    refine .bind (.step (.tick _)) fun _ _ => .bind (built_expr hc left hleft) fun a ha => ?_
    have hdecided : Permitted V S (result (op.decidedBy a)) fun decided =>
        ∀ v, decided = some v → v.Within S :=
      .outcome fun decided h v hv => Operator.within_of_decidedBy (hv ▸ h)
    refine .bind (.step hdecided) fun decided hdecided => ?_
    cases decided with
    | some v => exact .pure (hdecided v rfl)
    | none => exact .bind (built_expr hc right hright) fun b hb => .step (.apply ha hb)
  | .variable name, hname => by
    rw [expr]
    exact .bind (.step (.tick _)) fun _ _ => .step (.lookup hc hname)
  | .property receiver name, ⟨hreceiver, hname⟩ => by
    rw [expr]
    refine .bind (.step (.tick _)) fun _ _ => ?_
    refine .bind (built_expr hc receiver hreceiver) fun object hobject => ?_
    exact .bind (.step (permitted_membersOf hobject)) fun members hmembers =>
      .step (.member hmembers hname)
  | .call name arguments, ⟨hname, harguments⟩ => by
    rw [expr]
    refine .bind (.step (.tick _)) fun _ _ => ?_
    refine .bind (.step (.lookup hc hname)) fun target htarget => ?_
    refine .bind (.step (permitted_callable name htarget)) fun id hid => ?_
    exact .bind (built_exprs hc arguments harguments) fun vs hvs => hi id hid vs hvs
  | .method receiver name arguments, ⟨hreceiver, hname, harguments⟩ => by
    rw [expr]
    refine .bind (.step (.tick _)) fun _ _ => ?_
    refine .bind (built_expr hc receiver hreceiver) fun object hobject => ?_
    refine .bind (.step (permitted_membersOf hobject)) fun members hmembers => ?_
    refine .bind (.step (.member hmembers hname)) fun target htarget => ?_
    refine .bind (.step (permitted_callable name htarget)) fun id hid => ?_
    refine .bind (built_exprs hc arguments harguments) fun vs hvs => hi id hid _ ?_
    exact List.forall_mem_cons.mpr ⟨hobject, hvs⟩
  | .object name fields methods, ⟨hfields, hmethods⟩ => by
    rw [expr]
    refine .bind (.step (.tick _)) fun _ _ => ?_
    refine .bind (.step (.newFrame hc)) fun members ⟨hframe, hmembers⟩ => ?_
    refine .bind (built_objectFields (c := { c with frame := members }) hframe fields hfields)
      fun _ _ => ?_
    refine .bind (built_objectMethods hc hframe hthis hmethods) fun _ _ => ?_
    exact .bind (.mark _) fun _ _ => .pure hmembers

theorem built_exprs {c : Context} (hc : c.frame ∈ S.frames) : ∀ es : List Expr,
    WrittenInExprs V es → Built V S (exprs invoke c es) fun vs => ∀ v ∈ vs, v.Within S
  | [], _ => by
    rw [exprs]
    exact .pure nofun
  | e :: rest, ⟨he, hrest⟩ => by
    rw [exprs]
    refine .bind (built_expr hc e he) fun v hv => .bind (built_exprs hc rest hrest) fun vs hvs => ?_
    exact .pure (List.forall_mem_cons.mpr ⟨hv, hvs⟩)

theorem built_optionalExpr {c : Context} (hc : c.frame ∈ S.frames) : ∀ e : Option Expr,
    WrittenInOption V e → Built V S (optionalExpr invoke c e) (·.Within S)
  | none, _ => by
    rw [optionalExpr]
    exact .pure trivial
  | some e, he => by
    rw [optionalExpr]
    exact built_expr hc e he

theorem built_declaration {c : Context} (hc : c.frame ∈ S.frames) : ∀ d : Declaration,
    d.WrittenIn V → Built V S (declaration invoke c d) (·.Within S)
  | ⟨name, _, value⟩, ⟨hname, hvalue⟩ => by
    rw [declaration]
    refine .bind (.step (.requireFree hc hname)) fun _ _ => ?_
    refine .bind (built_optionalExpr hc value hvalue) fun v hv => ?_
    exact .bind (.step (.define hc hname hv)) fun _ _ => .pure hv

theorem built_objectFields {c : Context} (hc : c.frame ∈ S.frames) : ∀ ds : List Declaration,
    WrittenInFields V ds → Built V S (objectFields invoke c ds) fun _ => True
  | [], _ => by
    rw [objectFields]
    exact .pure trivial
  | d :: rest, ⟨hd, hrest⟩ => by
    rw [objectFields]
    exact .bind (built_declaration hc d hd) fun _ _ => built_objectFields hc rest hrest

theorem built_stmt {c : Context} (hc : c.frame ∈ S.frames) : ∀ s : Stmt, s.WrittenIn V →
    Built V S (stmt invoke c s) (·.Within S)
  | .declare d, hd => by
    rw [stmt]
    exact .bind (.step (.tick _)) fun _ _ => .bind (built_declaration hc d hd) fun _ hv => .pure hv
  | .define d, hd => by
    rw [stmt]
    have hname := (Definition.writtenIn_iff.mp hd).1
    refine .bind (.step (.tick _)) fun _ _ => .bind (.step (.requireFree hc hname)) fun _ _ => ?_
    refine .bind (built_newClosure c hd hc nofun) fun id hid => ?_
    exact .bind (.step (.define hc hname hid)) fun _ _ => .pure hid
  | .branch condition thenBody elseBody, ⟨hcondition, hthen, helse⟩ => by
    rw [stmt]
    refine .bind (.step (.tick _)) fun _ _ => ?_
    refine .bind (built_expr hc condition hcondition) fun v _ => ?_
    refine .bind (.step (.outcome fun _ _ => trivial)) fun holds (_ : True) => ?_
    refine .bind (.step (.newFrame hc)) fun frame hframe => ?_
    cases holds with
    | true => exact built_stmts (c := ⟨frame, c.meter⟩) hframe.1 .nil trivial thenBody hthen
    | false => exact built_stmts (c := ⟨frame, c.meter⟩) hframe.1 .nil trivial elseBody helse
  | .forEach name items body, ⟨hname, hitems, hbody⟩ => by
    rw [stmt]
    refine .bind (.step (.tick _)) fun _ _ => .bind (built_expr hc items hitems) fun v hv => ?_
    refine .bind (.step (permitted_itemsOf hv)) fun vs hvs => ?_
    refine built_forEach (fun item hitem => ?_) hvs
    refine .bind (.step (.newFrame hc)) fun frame hframe => ?_
    refine .bind (.step (.define hframe.1 hname hitem)) fun _ _ => ?_
    exact built_stmts (c := { c with frame := frame }) hframe.1 .nil trivial body hbody
  | .ret value, hvalue => by
    rw [stmt]
    exact .bind (.step (.tick _)) fun _ _ =>
      .bind (built_optionalExpr hc value hvalue) fun _ hv => .pure hv
  | .expression value, hvalue => by
    rw [stmt]
    exact .bind (.step (.tick _)) fun _ _ => .bind (built_expr hc value hvalue) fun _ hv => .pure hv
  | .assign (.variable name) value, ⟨hassigns, hname, hvalue⟩ => by
    rw [stmt]
    refine .bind (.step (.tick _)) fun _ _ => .bind (.step (.lookup hc hname)) fun _ _ => ?_
    refine .bind (built_expr hc value hvalue) fun v hv => ?_
    exact .bind (.step (.set hassigns hc hname hv)) fun _ _ => .pure hv
  | .assign (.property receiver name) value, ⟨hassigns, ⟨hreceiver, hname⟩, hvalue⟩ => by
    rw [stmt]
    refine .bind (.step (.tick _)) fun _ _ => ?_
    refine .bind (built_expr hc receiver hreceiver) fun object hobject => ?_
    refine .bind (.step (permitted_membersOf hobject)) fun members hmembers => ?_
    refine .bind (.step (.member hmembers hname)) fun _ _ => ?_
    refine .bind (built_expr hc value hvalue) fun v hv => ?_
    exact .bind (.step (.setOwn hassigns hmembers hname hv)) fun _ _ => .pure hv
  | .assign (.literal _) _, _ | .assign (.group _) _, _ | .assign (.binary _ _ _) _, _
  | .assign (.call _ _) _, _ | .assign (.method _ _ _) _, _ | .assign (.object _ _ _) _, _ => by
    rw [stmt.eq_def]
    exact .bind (.step (.tick _)) fun _ _ => .step (.outcome (r := .error _) nofun)

theorem built_stmts {c : Context} (hc : c.frame ∈ S.frames) (last : Value) (hlast : last.Within S) :
    ∀ body : List Stmt, WrittenInStmts V body → Built V S (stmts invoke c last body) (·.Within S)
  | [], _ => by
    rw [stmts]
    exact .pure hlast
  | s :: rest, ⟨hs, hrest⟩ => by
    rw [stmts]
    refine .bind (built_stmt hc s hs) fun completion hcompletion => ?_
    cases completion with
    | normal v => exact built_stmts hc v hcompletion rest hrest
    | returned v => exact .pure hcompletion

end

end Trees

/-! ## Calls -/

theorem built_withCall {α : Type} {P : α → Prop} (m : MeterId) {x : Run α} (h : Built V S x P) :
    Built V S (withCall m x) P :=
  .bind (.step (.allow m)) fun _ _ => .leaving m h

/-- A call of a function of the region. -/
theorem built_call (hthis : thisName ∈ V.names) : ∀ (n : Nat), ∀ id ∈ S.functions,
    ∀ arguments : List Value, (∀ v ∈ arguments, v.Within S) →
      Built V S (call n id arguments) (·.Within S) := by
  intro n
  induction n with
  | zero =>
    intro id hid arguments harguments
    rw [call_eq]
    refine .function (k := fun function => applyFunction 0 id function arguments) hid
      fun function hfunction => ?_
    unfold applyFunction
    split
    · exact .step (.host harguments)
    · exact .bind (.step (permitted_requireArguments _ _ _)) fun _ _ => built_withCall _ .stop
  | succ n ih =>
    intro id hid arguments harguments
    rw [call_eq]
    refine .function (k := fun function => applyFunction (n + 1) id function arguments) hid
      fun function hfunction => ?_
    unfold applyFunction
    split
    · exact .step (.host harguments)
    · next c hcode =>
      obtain ⟨hbindings, hbody, hcaptured⟩ := hfunction c hcode
      refine .bind (.step (permitted_requireArguments _ _ _)) fun _ _ => built_withCall _ ?_
      refine .bind (.step (.newFrame hcaptured)) fun frame hframe => ?_
      refine .bind (built_defineAll hframe.1 fun b hb => ?_) fun _ _ => ?_
      · obtain ⟨hname, hv⟩ := List.of_mem_zip hb
        exact ⟨hbindings _ hname, harguments _ hv⟩
      · have hrun := built_stmts hthis ih (c := ⟨frame, c.meter⟩) hframe.1 .nil trivial c.body hbody
        refine .bind hrun fun completion hcompletion => ?_
        refine .bind (.mark _) fun _ _ => .pure ?_
        cases completion with
        | normal v => trivial
        | returned v => exact hcompletion

end Traced

end Eval

/-! ## Tasks -/

/-- What the task runs is written in the vocabulary. -/
def Task.WrittenIn (V : Vocabulary) : Task → Prop
  | .program p => p.WrittenIn V
  | .stmt s => s.WrittenIn V
  | .expr e => e.WrittenIn V

namespace Eval.Traced

variable {V : Vocabulary} {S : Region}

theorem built_task (hthis : thisName ∈ V.names) (n : Nat) {c : Context} (hc : c.frame ∈ S.frames)
    {task : Task} (h : task.WrittenIn V) : Built V S (task.traced n c) (·.Within S) := by
  have hi := built_call (V := V) (S := S) hthis n
  cases task with
  | program p =>
    refine .bind (built_stmts hthis hi hc .nil trivial p.statements h)
      fun completion hcompletion => ?_
    cases completion with
    | normal v => exact .pure hcompletion
    | returned v => exact .step (.outcome (r := .error _) nofun)
  | stmt s => exact built_stmt hthis hi hc s h
  | expr e => exact .bind (built_expr hthis hi hc e h) fun _ hv => .pure hv

end Eval.Traced

end ObjectLang
