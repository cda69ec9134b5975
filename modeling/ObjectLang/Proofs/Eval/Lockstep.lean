import ObjectLang.Proofs.Eval.Entry
import ObjectLang.Proofs.Eval.Operators
import ObjectLang.Proofs.Program.Trim

/-!
# Relations that evaluation keeps

Evaluation of a tree does nothing to the world but the steps of `ObjectLang.Eval`. A relation
between runs that holds of each step with itself, and of two runs in sequence if it holds of their
parts, therefore holds of the evaluation of every tree, as long as it holds of the calls. Of the two
runs the second may be one of the trimmed tree: declared types are not looked at, and parentheses
cost a step and nothing else.

What is asked of a relation `R` comes in layers. `Stepwise R` is about the steps that work on
frames, `Hosting R` also about what host functions record. `Treewise t P R Q` is what evaluation of
a tree and of the tree trimmed by `t` asks for when it is charged to the meters in `P`: a context
has one meter, and the functions that are made in it are charged to that meter. Calls are related by
`Q`, which may be weaker than `R`, because the step of the expression that calls has been charged
before. `Lockstep P R` is about two runs of the same tree, in which calls are related by `R` as
well. A property of single runs is the special case in which `R` looks at its first run only.

The relation also depends on a frame, the one that may get new names: a statement defines names in
the frame of its context, an expression in no frame that existed before, because the frames of
blocks and objects are opened by the construct that fills them. -/

namespace ObjectLang

/-- The failures of a run that has reached a limit. -/
def EvalError.IsLimit : EvalError → Prop
  | .gasExhausted _ | .callDepthExceeded _ => True
  | _ => False

theorem EvalError.IsOperand.not_isLimit {e : EvalError} (h : e.IsOperand) : ¬ e.IsLimit := by
  cases e <;> first | exact id | exact absurd h id

namespace Eval

/-- A function that is charged to a meter in `P` if it is charged at all. -/
def ChargedIn (P : MeterId → Prop) (function : Function) : Prop :=
  ∀ c, function.code = .closure c → P c.meter

/-- What a relation between runs has to satisfy in order to be kept by the steps that work on
frames. The relation may depend on the frame that gets new names. -/
structure Stepwise (R : Option FrameId → ∀ {α : Type}, EvalM α → EvalM α → Prop) : Prop where
  pure {α : Type} (a : α) : R none (pure a) (pure a)
  fail {α : Type} (e : EvalError) : ¬ e.IsLimit → R none (fail e : EvalM α) (fail e)
  weaken {α : Type} {x y : EvalM α} (g : Option FrameId) : R none x y → R g x y
  bind {α β : Type} {g : Option FrameId} {x y : EvalM α} {k l : α → EvalM β} :
    R g x y → (∀ a, R g (k a) (l a)) → R g (x >>= k) (y >>= l)
  /-- What is read of the world are its frames and the names of its functions. -/
  read {α : Type} {g : Option FrameId} {x y : World → EvalM α} :
    (∀ w w' : World, w.store = w'.store → w.functionName = w'.functionName → y w = y w') →
    (∀ w, R g (x w) (y w)) → R g (get >>= x) (get >>= y)
  /-- Names may be put into a frame that is opened on the way. -/
  opened {α : Type} (p : FrameId) {k l : FrameId → EvalM α} :
    (∀ f, R (some f) (k f) (l f)) → R none (newFrame p >>= k) (newFrame p >>= l)
  append (f : FrameId) (name : String) (v : Value) :
    R (some f) (modify fun w => { w with store := w.store.append f name v })
      (modify fun w => { w with store := w.store.append f name v })
  replace (f : FrameId) (name : String) (v : Value) :
    R none (modify fun w => { w with store := w.store.replace f name v })
      (modify fun w => { w with store := w.store.replace f name v })

/-- What a relation has to satisfy in order to be kept by calls of host functions. -/
structure Hosting (R : Option FrameId → ∀ {α : Type}, EvalM α → EvalM α → Prop) : Prop
    extends Stepwise R where
  recordPrinted (text : String) : R none (recordPrinted text) (recordPrinted text)
  recordLogged (v : Value) : R none (recordLogged v) (recordLogged v)

/-- What a relation has to satisfy in order to be kept by evaluation of trees, and of the trees
trimmed by `t`, in contexts whose meter is in `P`, if calls are related by `Q`. -/
structure Treewise (t : Trimming) (P : MeterId → Prop)
    (R : Option FrameId → ∀ {α : Type}, EvalM α → EvalM α → Prop)
    (Q : ∀ {α : Type}, EvalM α → EvalM α → Prop) : Prop extends Stepwise R where
  tick (m : MeterId) : P m → R none (tick m) (tick m)
  newFunction (function : Function) : ChargedIn P function → t.Fits function.targets →
    R none (newFunction function) (newFunction (function.trim t))
  /-- Parentheses that are left out take a step in the first run. -/
  ungroup {α : Type} (m : MeterId) {x y : EvalM α} : t.groups = true → P m → R none x y →
    R none (Eval.tick m >>= fun _ => x) y
  /-- A call comes after a step was charged. -/
  charged {α : Type} (m : MeterId) {x y : EvalM α} : P m → Q x y →
    R none (Eval.tick m >>= fun _ => x) (Eval.tick m >>= fun _ => y)
  /-- Between the step and the call the arguments are evaluated. -/
  after {α β : Type} {x y : EvalM α} {k l : α → EvalM β} :
    R none x y → (∀ a, Q (k a) (l a)) → Q (x >>= k) (y >>= l)

/-- What a relation has to satisfy in order to be kept by evaluation in contexts whose meter is in
`P`. -/
structure Lockstep (P : MeterId → Prop)
    (R : Option FrameId → ∀ {α : Type}, EvalM α → EvalM α → Prop) : Prop extends Hosting R where
  tick (m : MeterId) : P m → R none (tick m) (tick m)
  newFunction (function : Function) : ChargedIn P function →
    R none (newFunction function) (newFunction function)
  /-- A call reads its function. -/
  function {α : Type} (id : FunctionId) {k l : Function → EvalM α} :
    (∀ function, R none (k function) (l function)) →
    R none (get >>= fun w => k (w.function id)) (get >>= fun w => l (w.function id))

variable {P : MeterId → Prop} {R : Option FrameId → ∀ {α : Type}, EvalM α → EvalM α → Prop}
  {Q : ∀ {α : Type}, EvalM α → EvalM α → Prop}

/-! ## Steps -/

namespace Stepwise

variable (hR : Stepwise R)
include hR

theorem result {α : Type} {r : Except EvalError α} (h : ∀ e, r = .error e → e.IsOperand) :
    R none (result r) (result r) := by
  cases r with
  | ok a => exact hR.pure a
  | error e => exact hR.fail e (h e rfl).not_isLimit

theorem lookup (f : FrameId) (name : String) : R none (lookup f name) (lookup f name) := by
  refine hR.read (fun w w' hs _ => by rw [hs]) fun w => ?_
  split
  · exact hR.pure _
  · exact hR.fail _ id

theorem member (f : FrameId) (name : String) : R none (member f name) (member f name) := by
  refine hR.read (fun w w' hs _ => by rw [hs]) fun w => ?_
  split
  · exact hR.pure _
  · exact hR.fail _ id

theorem requireFree (f : FrameId) (name : String) :
    R none (requireFree f name) (requireFree f name) := by
  refine hR.read (fun w w' hs _ => by rw [hs]) fun w => ?_
  split
  · exact hR.fail _ id
  · exact hR.pure _

theorem define (f : FrameId) (name : String) (v : Value) :
    R (some f) (define f name v) (define f name v) :=
  hR.bind (hR.weaken _ (hR.requireFree f name)) fun _ => hR.append f name v

theorem defineAll (f : FrameId) (bindings : List (String × Value)) :
    R (some f) (defineAll f bindings) (defineAll f bindings) := by
  induction bindings with
  | nil => exact hR.weaken _ (hR.pure ())
  | cons b rest ih => exact hR.bind (hR.define f b.1 b.2) fun _ => ih

theorem setOwn (f : FrameId) (name : String) (v : Value) :
    R none (setOwn f name v) (setOwn f name v) := by
  refine hR.read (fun w w' hs _ => by rw [hs]) fun w => ?_
  split
  · exact hR.bind (hR.replace f name v) fun _ => hR.pure true
  · exact hR.pure false

theorem set (f : FrameId) (name : String) (v : Value) : R none (set f name v) (set f name v) := by
  refine hR.read (fun w w' hs _ => by rw [hs]) fun w => ?_
  split
  · exact hR.bind (hR.replace _ name v) fun _ => hR.pure true
  · exact hR.pure false

theorem membersOf (v : Value) : R none (membersOf v) (membersOf v) := by
  cases v with
  | object name members => exact hR.pure members
  | _ => exact hR.fail _ id

theorem callable (name : String) (v : Value) : R none (callable name v) (callable name v) := by
  cases v with
  | function id => exact hR.pure id
  | _ => exact hR.fail _ id

theorem itemsOf (v : Value) : R none (itemsOf v) (itemsOf v) := by
  cases v with
  | list items => exact hR.pure items
  | _ => exact hR.fail _ id

/-- Among the frames that exist, at most the one of its context gets the name of a statement. -/
theorem of_home {α : Type} {x y : EvalM α} {s : Stmt} {f : FrameId} (h : R (s.home f) x y) :
    R (some f) x y := by
  cases s with
  | declare d => exact h
  | define d => exact h
  | _ => exact hR.weaken _ h

theorem requireArguments (name : String) (bindings : List String) (arguments : List Value) :
    R none (requireArguments name bindings arguments)
      (requireArguments name bindings arguments) := by
  rw [Eval.requireArguments]
  split
  · exact hR.pure ()
  · exact hR.fail _ id

theorem forEach {body body' : Value → EvalM Completion} (h : ∀ v, R none (body v) (body' v))
    (items : List Value) : R none (forEach body items) (forEach body' items) := by
  induction items with
  | nil => exact hR.pure _
  | cons item rest ih =>
    refine hR.bind (h item) fun completion => ?_
    cases completion with
    | normal _ => exact ih
    | returned v => exact hR.pure _

theorem oneArgument (name : String) (arguments : List Value) :
    R none (oneArgument name arguments) (oneArgument name arguments) := by
  rw [Eval.oneArgument.eq_def]
  split
  · exact hR.pure _
  · exact hR.fail _ id

end Stepwise

theorem Hosting.host (hR : Hosting R) (name : String) (f : HostFunction) (arguments : List Value) :
    R none (host name f arguments) (host name f arguments) := by
  cases f with
  | log =>
    exact hR.bind (hR.oneArgument name arguments) fun v =>
      hR.bind (hR.recordLogged v) fun _ => hR.pure v
  | print =>
    refine hR.bind (hR.oneArgument name arguments) fun v => ?_
    refine hR.read (fun w w' hs hf => by rw [World.print_congr hs hf]) fun w => ?_
    exact hR.bind (hR.recordPrinted _) fun _ => hR.pure _
  | list => exact hR.pure _
  | range =>
    unfold Eval.host
    dsimp only
    split
    · exact hR.pure _
    · exact hR.fail _ id
    · exact hR.fail _ id
  | nothing =>
    unfold Eval.host
    dsimp only
    split
    · exact hR.pure _
    · exact hR.fail _ id
  | fail =>
    refine hR.bind (hR.oneArgument name arguments) fun v => ?_
    exact hR.read (fun w w' hs hf => by rw [World.print_congr hs hf]) fun w => hR.fail _ id
  | count => exact hR.pure _

/-! ## Trees -/

/-- A trimmed definition makes a function with a trimmed body. -/
theorem newClosure_trim (t : Trimming) (c : Context) (d : Definition) (captured : FrameId)
    (isMethod : Bool) :
    newClosure c (d.trim t) captured isMethod =
      match firstRepeated? [] (d.parameters.map (·.name)) with
      | some name => fail (.duplicateParameter name)
      | none => newFunction ((d.function captured c.meter isMethod).trim t) := by
  obtain ⟨name, parameters, returnType, body⟩ := d
  have hnames : (parameters.map (Parameter.trim t)).map (·.name) = parameters.map (·.name) := by
    rw [List.map_map]
    rfl
  rw [newClosure, Definition.trim]
  dsimp only
  rw [hnames]
  rfl

namespace Treewise

section Functions

variable {t : Trimming} (hR : Treewise t P R Q)
include hR

theorem newClosure {c : Context} (hc : P c.meter) (d : Definition) (captured : FrameId)
    (isMethod : Bool) (hd : t.Fits d.targets) :
    R none (newClosure c d captured isMethod) (Eval.newClosure c (d.trim t) captured isMethod) := by
  rw [newClosure_trim, Eval.newClosure]
  cases firstRepeated? [] (d.parameters.map (·.name)) with
  | some name => exact hR.fail _ id
  | none =>
    refine hR.newFunction (d.function captured c.meter isMethod) (fun closure hclosure => ?_) ?_
    · cases hclosure
      exact hc
    · obtain ⟨name, parameters, returnType, body⟩ := d
      exact hd

theorem objectMethods {c : Context} (hc : P c.meter) (members : FrameId)
    (methods : List Definition) (hmethods : t.Fits (targetsOfMethods methods)) :
    R (some members) (objectMethods c members methods)
      (Eval.objectMethods c members (trimMethods t methods)) := by
  induction methods with
  | nil =>
    rw [trimMethods]
    exact hR.weaken _ (hR.pure ())
  | cons d rest ih =>
    obtain ⟨hd, hrest⟩ := Trimming.fits_append_iff.mp hmethods
    rw [trimMethods, Eval.objectMethods, Eval.objectMethods, Definition.name_trim]
    refine hR.bind (hR.weaken _ (hR.requireFree members d.name)) fun _ => ?_
    refine hR.bind (hR.weaken _ (hR.newClosure hc d c.frame true hd)) fun id => ?_
    exact hR.bind (hR.define members d.name (.function id)) fun _ => ih hrest

end Functions

section Trees

set_option linter.unusedSectionVars false

variable {t : Trimming} (hR : Treewise t P R Q) {invoke invoke' : Invoke}
  (hi : ∀ id arguments, Q (invoke id arguments) (invoke' id arguments))
include hR hi

mutual

theorem expr {c : Context} (hc : P c.meter) : ∀ e : Expr, t.Fits e.targets →
    R none (expr invoke c e) (Eval.expr invoke' c (e.trim t))
  | .literal value, _ => by
    rw [Expr.trim, Eval.expr, Eval.expr]
    exact hR.bind (hR.tick _ hc) fun _ => hR.pure _
  | .group inner, he => by
    have hinner := expr hc inner he
    rw [Expr.trim, Trimming.group, Eval.expr]
    by_cases hgroups : t.groups = true
    · rw [if_pos hgroups]
      exact hR.ungroup _ hgroups hc hinner
    · rw [if_neg hgroups, Eval.expr]
      exact hR.bind (hR.tick _ hc) fun _ => hinner
  | .binary op left right, he => by
    obtain ⟨hleft, hright⟩ := Trimming.fits_append_iff.mp he
    rw [Expr.trim, Eval.expr, Eval.expr]
    refine hR.bind (hR.tick _ hc) fun _ => hR.bind (expr hc left hleft) fun a => ?_
    refine hR.bind (hR.result fun e => Operator.isOperand_decidedBy) fun decided => ?_
    cases decided with
    | some v => exact hR.pure v
    | none =>
      refine hR.bind (expr hc right hright) fun b => ?_
      exact hR.read (fun w w' hs hf => by rw [World.print_congr hs hf]) fun w =>
        hR.result fun e => Operator.isOperand_apply
  | .variable name, _ => by
    rw [Expr.trim, Eval.expr, Eval.expr]
    exact hR.bind (hR.tick _ hc) fun _ => hR.lookup c.frame name
  | .property receiver name, he => by
    rw [Expr.trim, Eval.expr, Eval.expr]
    refine hR.bind (hR.tick _ hc) fun _ => hR.bind (expr hc receiver he) fun object => ?_
    exact hR.bind (hR.membersOf object) fun members => hR.member members name
  | .call name arguments, he => by
    rw [Expr.trim, Eval.expr, Eval.expr]
    refine hR.charged _ hc (hR.after (hR.lookup c.frame name) fun target => ?_)
    refine hR.after (hR.callable name target) fun id => ?_
    exact hR.after (exprs hc arguments he) fun arguments => hi id arguments
  | .method receiver name arguments, he => by
    obtain ⟨hreceiver, harguments⟩ := Trimming.fits_append_iff.mp he
    rw [Expr.trim, Eval.expr, Eval.expr]
    refine hR.charged _ hc (hR.after (expr hc receiver hreceiver) fun object => ?_)
    refine hR.after (hR.membersOf object) fun members => ?_
    refine hR.after (hR.member members name) fun target => ?_
    refine hR.after (hR.callable name target) fun id => ?_
    exact hR.after (exprs hc arguments harguments) fun arguments => hi id _
  | .object name fields methods, he => by
    obtain ⟨hfields, hmethods⟩ := Trimming.fits_append_iff.mp he
    rw [Expr.trim, Eval.expr, Eval.expr]
    refine hR.bind (hR.tick _ hc) fun _ => hR.opened c.frame fun members => ?_
    refine hR.bind (objectFields (c := ⟨members, c.meter⟩) hc fields hfields) fun _ => ?_
    refine hR.bind (hR.objectMethods hc members methods hmethods) fun _ => ?_
    exact hR.weaken _ (hR.pure _)

theorem exprs {c : Context} (hc : P c.meter) : ∀ es : List Expr, t.Fits (targetsOfExprs es) →
    R none (exprs invoke c es) (Eval.exprs invoke' c (trimExprs t es))
  | [], _ => by
    rw [trimExprs, Eval.exprs, Eval.exprs]
    exact hR.pure _
  | e :: rest, he => by
    obtain ⟨he, hrest⟩ := Trimming.fits_append_iff.mp he
    rw [trimExprs, Eval.exprs, Eval.exprs]
    refine hR.bind (expr hc e he) fun v => ?_
    exact hR.bind (exprs hc rest hrest) fun vs => hR.pure _

theorem optionalExpr {c : Context} (hc : P c.meter) :
    ∀ e : Option Expr, t.Fits (targetsOfOption e) →
    R none (optionalExpr invoke c e) (Eval.optionalExpr invoke' c (trimOption t e))
  | none, _ => by
    rw [trimOption, Eval.optionalExpr, Eval.optionalExpr]
    exact hR.pure _
  | some e, he => by
    rw [trimOption, Eval.optionalExpr, Eval.optionalExpr]
    exact expr hc e he

theorem declaration {c : Context} (hc : P c.meter) : ∀ d : Declaration, t.Fits d.targets →
    R (some c.frame) (declaration invoke c d) (Eval.declaration invoke' c (d.trim t))
  | ⟨name, _, value⟩, hd => by
    rw [Declaration.trim, Eval.declaration, Eval.declaration]
    refine hR.bind (hR.weaken _ (hR.requireFree c.frame name)) fun _ => ?_
    refine hR.bind (hR.weaken _ (optionalExpr hc value hd)) fun v => ?_
    exact hR.bind (hR.define c.frame name v) fun _ => hR.weaken _ (hR.pure v)

theorem objectFields {c : Context} (hc : P c.meter) : ∀ ds : List Declaration,
    t.Fits (targetsOfFields ds) →
    R (some c.frame) (objectFields invoke c ds) (Eval.objectFields invoke' c (trimFields t ds))
  | [], _ => by
    rw [trimFields, Eval.objectFields, Eval.objectFields]
    exact hR.weaken _ (hR.pure _)
  | d :: rest, hds => by
    obtain ⟨hd, hrest⟩ := Trimming.fits_append_iff.mp hds
    rw [trimFields, Eval.objectFields, Eval.objectFields]
    exact hR.bind (declaration hc d hd) fun _ => objectFields hc rest hrest

theorem stmt {c : Context} (hc : P c.meter) : ∀ s : Stmt, t.Fits s.targets →
    R (s.home c.frame) (stmt invoke c s) (Eval.stmt invoke' c (s.trim t))
  | .declare d, hs => by
    rw [Stmt.trim, Eval.stmt, Eval.stmt]
    refine hR.bind (hR.weaken _ (hR.tick _ hc)) fun _ => ?_
    exact hR.bind (declaration hc d hs) fun v => hR.weaken _ (hR.pure _)
  | .define d, hs => by
    rw [Stmt.trim, Eval.stmt, Eval.stmt, Definition.name_trim]
    refine hR.bind (hR.weaken _ (hR.tick _ hc)) fun _ => ?_
    refine hR.bind (hR.weaken _ (hR.requireFree c.frame d.name)) fun _ => ?_
    refine hR.bind (hR.weaken _ (hR.newClosure hc d c.frame false hs)) fun id => ?_
    exact hR.bind (hR.define c.frame d.name (.function id)) fun _ => hR.weaken _ (hR.pure _)
  | .branch condition thenBody elseBody, hs => by
    obtain ⟨hcondition, hbodies⟩ := Trimming.fits_append_iff.mp hs
    obtain ⟨hthen, helse⟩ := Trimming.fits_append_iff.mp hbodies
    rw [Stmt.trim, Eval.stmt, Eval.stmt]
    refine hR.bind (hR.tick _ hc) fun _ => hR.bind (expr hc condition hcondition) fun v => ?_
    refine hR.bind (hR.result fun e => Value.isOperand_truth) fun holds => ?_
    refine hR.opened c.frame fun frame => ?_
    cases holds with
    | true => exact stmts (c := ⟨frame, c.meter⟩) hc .nil thenBody hthen
    | false => exact stmts (c := ⟨frame, c.meter⟩) hc .nil elseBody helse
  | .forEach name items body, hs => by
    obtain ⟨hitems, hbody⟩ := Trimming.fits_append_iff.mp hs
    rw [Stmt.trim, Eval.stmt, Eval.stmt]
    refine hR.bind (hR.tick _ hc) fun _ => hR.bind (expr hc items hitems) fun v => ?_
    refine hR.bind (hR.itemsOf v) fun items => hR.forEach (fun item => ?_) items
    refine hR.opened c.frame fun frame => hR.bind (hR.define frame name item) fun _ => ?_
    exact stmts (c := ⟨frame, c.meter⟩) hc .nil body hbody
  | .ret value, hs => by
    rw [Stmt.trim, Eval.stmt, Eval.stmt]
    refine hR.bind (hR.tick _ hc) fun _ => ?_
    exact hR.bind (optionalExpr hc value hs) fun v => hR.pure _
  | .expression value, hs => by
    rw [Stmt.trim, Eval.stmt, Eval.stmt]
    refine hR.bind (hR.tick _ hc) fun _ => ?_
    exact hR.bind (expr hc value hs) fun v => hR.pure _
  | .assign (.variable name) value, hs => by
    obtain ⟨_, hparts⟩ := Trimming.fits_append_iff.mp hs
    obtain ⟨_, hvalue⟩ := Trimming.fits_append_iff.mp hparts
    rw [Stmt.trim, Expr.trim, Eval.stmt, Eval.stmt]
    refine hR.bind (hR.tick _ hc) fun _ => ?_
    refine hR.bind (hR.lookup c.frame name) fun _ => hR.bind (expr hc value hvalue) fun v => ?_
    exact hR.bind (hR.set c.frame name v) fun _ => hR.pure _
  | .assign (.property receiver name) value, hs => by
    obtain ⟨_, hparts⟩ := Trimming.fits_append_iff.mp hs
    obtain ⟨hreceiver, hvalue⟩ := Trimming.fits_append_iff.mp hparts
    rw [Stmt.trim, Expr.trim, Eval.stmt, Eval.stmt]
    refine hR.bind (hR.tick _ hc) fun _ => hR.bind (expr hc receiver hreceiver) fun object => ?_
    refine hR.bind (hR.membersOf object) fun members => ?_
    refine hR.bind (hR.member members name) fun _ => hR.bind (expr hc value hvalue) fun v => ?_
    exact hR.bind (hR.setOwn members name v) fun _ => hR.pure _
  | .assign (.literal _) _, hs | .assign (.group _) _, hs | .assign (.binary _ _ _) _, hs
  | .assign (.call _ _) _, hs | .assign (.method _ _ _) _, hs | .assign (.object _ _ _) _, hs => by
    obtain ⟨htarget, _⟩ := Trimming.fits_append_iff.mp hs
    rw [Stmt.trim, stmt_assign_of_not_isTarget id,
      stmt_assign_of_not_isTarget (Expr.isTarget_trim htarget id)]
    exact hR.bind (hR.tick _ hc) fun _ => hR.fail _ id

theorem stmts {c : Context} (hc : P c.meter) (last : Value) : ∀ body : List Stmt,
    t.Fits (targetsOfStmts body) →
    R (some c.frame) (stmts invoke c last body) (Eval.stmts invoke' c last (trimStmts t body))
  | [], _ => by
    rw [trimStmts, Eval.stmts, Eval.stmts]
    exact hR.weaken _ (hR.pure _)
  | s :: rest, hbody => by
    obtain ⟨hs, hrest⟩ := Trimming.fits_append_iff.mp hbody
    rw [trimStmts, Eval.stmts, Eval.stmts]
    refine hR.bind (hR.of_home (stmt hc s hs)) fun completion => ?_
    cases completion with
    | normal v => exact stmts hc v rest hrest
    | returned v => exact hR.weaken _ (hR.pure _)

end

end Trees

theorem runBody {t : Trimming} (hR : Treewise t P R Q) {n k : Nat}
    (hcall : ∀ id arguments, Q (call n id arguments) (call k id arguments)) {c : Closure}
    (hc : P c.meter) (hbody : t.Fits (targetsOfStmts c.body)) (arguments : List Value) :
    R none (runBody (n + 1) c arguments) (Eval.runBody (k + 1) (c.trim t) arguments) := by
  refine hR.opened c.captured fun frame => hR.bind (hR.defineAll frame _) fun _ => ?_
  refine hR.bind (hR.stmts hcall (c := ⟨frame, c.meter⟩) hc .nil c.body hbody) fun completion => ?_
  exact hR.weaken _ (hR.pure _)

theorem program {t : Trimming} (hR : Treewise t P R Q) {n k : Nat}
    (hcall : ∀ id arguments, Q (call n id arguments) (call k id arguments)) {c : Context}
    (hc : P c.meter) (p : Program) (hp : t.Fits p.targets) :
    R (some c.frame) (p.runFueled n c) ((p.trim t).runFueled k c) := by
  refine hR.bind (hR.stmts hcall hc .nil p.statements hp) fun completion => ?_
  cases completion with
  | normal v => exact hR.weaken _ (hR.pure v)
  | returned v => exact hR.weaken _ (hR.fail _ id)

end Treewise

/-! ## The same tree -/

section Same

variable (hR : Treewise {} P R Q) {invoke invoke' : Invoke}
  (hi : ∀ id arguments, Q (invoke id arguments) (invoke' id arguments)) {c : Context}
  (hc : P c.meter)
include hR hi hc

theorem Treewise.sameExpr (e : Expr) : R none (Eval.expr invoke c e) (Eval.expr invoke' c e) := by
  have h := hR.expr hi hc e (Trimming.fits_of_groups rfl _)
  rwa [Expr.trim_empty] at h

theorem Treewise.sameOption (e : Option Expr) :
    R none (Eval.optionalExpr invoke c e) (Eval.optionalExpr invoke' c e) := by
  have h := hR.optionalExpr hi hc e (Trimming.fits_of_groups rfl _)
  rwa [trimOption_empty] at h

theorem Treewise.sameStmt (s : Stmt) :
    R (s.home c.frame) (Eval.stmt invoke c s) (Eval.stmt invoke' c s) := by
  have h := hR.stmt hi hc s (Trimming.fits_of_groups rfl _)
  rwa [Stmt.trim_empty] at h

theorem Treewise.sameStmts (last : Value) (body : List Stmt) :
    R (some c.frame) (Eval.stmts invoke c last body) (Eval.stmts invoke' c last body) := by
  have h := hR.stmts hi hc last body (Trimming.fits_of_groups rfl _)
  rwa [trimStmts_empty] at h

end Same

namespace Lockstep

/-- Calls may be related like everything else. -/
theorem treewise (hR : Lockstep P R) : Treewise {} P R (R none) :=
  { hR with
    newFunction := fun function hfunction _ => by
      rw [Function.trim_empty]
      exact hR.newFunction function hfunction
    ungroup := fun _ _ _ hgroups => by cases hgroups
    charged := fun m _ _ hm h => hR.bind (hR.tick m hm) fun _ => h
    after := hR.bind }

theorem newClosure (hR : Lockstep P R) {c : Context} (hc : P c.meter) (d : Definition)
    (captured : FrameId) (isMethod : Bool) :
    R none (newClosure c d captured isMethod) (Eval.newClosure c d captured isMethod) := by
  have h := hR.treewise.newClosure hc d captured isMethod (Trimming.fits_of_groups rfl _)
  rwa [Definition.trim_empty] at h

/-! ## Calls -/

theorem runBody (hR : Lockstep P R) {n k : Nat}
    (hcall : ∀ id arguments, R none (call n id arguments) (call k id arguments)) {c : Closure}
    (hc : P c.meter) (arguments : List Value) :
    R none (runBody (n + 1) c arguments) (Eval.runBody (k + 1) c arguments) := by
  have h := hR.treewise.runBody hcall hc (Trimming.fits_of_groups rfl _) arguments
  rwa [Closure.trim, trimStmts_empty] at h

theorem applyFunction (hR : Lockstep P R) {n k : Nat} {function : Function}
    (hbody : ∀ c arguments, function.code = .closure c →
      R none (withCall c.meter (Eval.runBody n c arguments))
        (withCall c.meter (Eval.runBody k c arguments))) (arguments : List Value) :
    R none (applyFunction n function arguments) (Eval.applyFunction k function arguments) := by
  obtain ⟨name, code⟩ := function
  cases code with
  | host f => exact hR.host name f arguments
  | closure c =>
    exact hR.bind (hR.requireArguments name c.bindings arguments) fun _ => hbody c arguments rfl

theorem call_of_withCall (hR : Lockstep P R) {n k : Nat}
    (hbody : ∀ c arguments, R none (withCall c.meter (Eval.runBody n c arguments))
      (withCall c.meter (Eval.runBody k c arguments))) (id : FunctionId) (arguments : List Value) :
    R none (call n id arguments) (call k id arguments) := by
  rw [call_eq, call_eq]
  refine hR.function (k := (Eval.applyFunction n · arguments))
    (l := (Eval.applyFunction k · arguments)) id fun function => ?_
  exact hR.applyFunction (fun c arguments _ => hbody c arguments) arguments

theorem program (hR : Lockstep P R) {n k : Nat}
    (hcall : ∀ id arguments, R none (call n id arguments) (call k id arguments)) {c : Context}
    (hc : P c.meter) (p : Program) : R (some c.frame) (p.runFueled n c) (p.runFueled k c) := by
  have h := hR.treewise.program hcall hc p (Trimming.fits_of_groups rfl _)
  rwa [Program.trim, trimStmts_empty] at h

/-- What a relation has to satisfy in order to be kept by calls as well, whatever meter they are
charged to. A run that is out of fuel may be related to any other, since more fuel takes a run
further. -/
structure Calls (R : Option FrameId → ∀ {α : Type}, EvalM α → EvalM α → Prop) : Prop
    extends Lockstep (fun _ => True) R where
  withCall {α : Type} (m : MeterId) {x y : EvalM α} :
    R none x y → R none (withCall m x) (withCall m y)
  outOfFuel {α : Type} (y : EvalM α) : R none (throw .outOfFuel) y

/-- A call with more fuel is related to one with less. -/
theorem Calls.call (hR : Calls R) {n k : Nat} (hn : n ≤ k) (id : FunctionId)
    (arguments : List Value) : R none (call n id arguments) (Eval.call k id arguments) := by
  induction n generalizing k id arguments with
  | zero =>
    refine hR.call_of_withCall (fun c arguments => hR.withCall c.meter ?_) id arguments
    exact hR.outOfFuel _
  | succ n ih =>
    obtain ⟨k, rfl⟩ : ∃ l, k = l + 1 := ⟨k - 1, by omega⟩
    refine hR.call_of_withCall (fun c arguments => hR.withCall c.meter ?_) id arguments
    exact hR.runBody (fun id arguments => ih (Nat.le_of_succ_le_succ hn) id arguments) trivial
      arguments

end Lockstep

end Eval

end ObjectLang
