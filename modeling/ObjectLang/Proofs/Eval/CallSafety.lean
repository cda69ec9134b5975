import ObjectLang.Proofs.Eval.Runs

/-!
# Steady programs use functions and objects as such

A well-typed program that may call whatever its names mean never calls what is no function, nor a
function with another number of arguments, and never asks for a member of what is no object or has
no such member. What carries this through a run is that the world follows a plan, which grows by one
frame whenever a frame is opened. An expression gives a value that suits its type, and adds no names
to the frames that it finds.
-/

namespace ObjectLang

theorem Literal.isPlain_ty (value : Literal) : value.ty.IsPlain := by
  cases value <;> trivial

theorem Operator.Types.isPlain {op : Operator} {left right ty : Ty} (h : op.Types left right ty) :
    ty.IsPlain := by
  cases h with
  | arithmetic _ ht =>
    simp only [List.mem_cons, List.not_mem_nil, or_false] at ht
    rcases ht with rfl | rfl <;> trivial
  | _ => trivial

theorem HostFunction.isPlain_returns {f : HostFunction} {params : List Ty} {returns : Ty}
    (h : f.ty? = some (.function params returns)) : returns.IsPlain := by
  cases f <;> cases h <;> trivial

/-- An initial value that suits its own type suits the type that the name is declared with. -/
theorem Declares.suits {Δ : FrameId → List (String × Ty)} {ρ : Receivers} {plan : Plan} {w : World}
    {senses : Senses} {v : Value} {typeName : Option String} {value : Option TypedExpr} {ty : Ty}
    {receiver : Option FrameId} (h : Declares typeName value ty)
    (hv : ∀ t ∈ value, v.Suits Δ ρ plan w (t.sense ρ senses))
    (hreceiver : ty.IsFunction → ∀ t ∈ value, t.receiver ρ senses = receiver) :
    v.Suits Δ ρ plan w (ty, receiver) := by
  cases h with
  | neither => trivial
  | value t =>
    exact (hv t rfl).serves fun _ => ⟨.refl _, fun hfunction => hreceiver hfunction t rfl⟩
  | typeName hname => exact Value.suits_of_isPlain (Ty.isPlain_of_name? hname)
  | both hname _ => exact Value.suits_of_isPlain (Ty.isPlain_of_name? hname)

namespace Eval

variable {Δ : FrameId → List (String × Ty)} {ρ : Receivers} {g : Option FrameId}
  {plan : Plan} {w : World} {f : FrameId} {Γ : Scope} {senses pending : Senses}

/-! ## Calls -/

/-- The arguments go with the parameters and the receiver, which comes first. -/
def Arguments (Δ : FrameId → List (String × Ty)) (ρ : Receivers) (plan : Plan) (w : World)
    (params : List Ty) : Option FrameId → List Value → Prop
  | none, arguments => arguments.length = params.length
  | some o, arguments => ∃ this rest, arguments = this :: rest ∧ rest.length = params.length ∧
      this.Suits Δ ρ plan w (.object o, none)

/-- Calls of functions with arguments that go with them run, and add no names to the frames that
they find. -/
structure RunsCalls (Δ : FrameId → List (String × Ty)) (ρ : Receivers) (invoke : Invoke) :
    Prop where
  confined : ∀ id arguments, Confined none (invoke id arguments)
  runs : ∀ {plan : Plan} {w : World} {id : FunctionId} {params : List Ty} {returns : Ty}
    {receiver : Option FrameId} {arguments : List Value}, w.Follows Δ ρ plan →
    (Value.function id).Suits Δ ρ plan w (.function params returns, receiver) →
    Arguments Δ ρ plan w params receiver arguments →
    Runs Δ ρ none plan (invoke id arguments) w fun v plan' w' =>
      v.Suits Δ ρ plan' w' (returns, none)

theorem membersOf_bind {β : Type} (name : Option String) (members : FrameId)
    (k : FrameId → EvalM β) : (membersOf (.object name members) >>= k) = k members := rfl

/-! ## Blocks -/

/-- The block of a branch runs in a frame of its own. -/
theorem Runs.block {c : Context} {invoke : Invoke} {body : List Stmt} {ts : List TypedStmt}
    (hs : Stands Δ ρ plan w c.frame senses pending) (h : TypesStmts Δ (.block [] :: Γ) body ts)
    (hbody : ∀ (c : Context) (plan : Plan) (w : World),
      Stands Δ ρ plan w c.frame senses (blockSenses ρ senses ts ++ pending) →
      plan.Promises c.frame (blockSenses ρ senses ts) →
      Runs Δ ρ (some c.frame) plan (stmts invoke c .nil body) w whatever) :
    Runs Δ ρ none plan
      (newFrame c.frame >>= fun frame => stmts invoke { c with frame := frame } .nil body) w
      whatever := by
  have hnodup : (([] ++ blockSenses ρ senses ts).map Prod.fst).Nodup := by
    rw [List.nil_append, names_blockSenses]
    exact h.nodup (List.cons_ne_nil _ _) List.nodup_nil
  have hrun := Runs.enter (fun _ => Pure.pure ())
    (k := fun frame => stmts invoke { c with frame := frame } .nil body) (R := whatever)
    hs hnodup (fun _ _ hl _ _ => .pure hl.follows (by simp)) fun plan' w' hs' hplan => by
      rw [List.map_nil, Senses.bind_nil, Senses.without_nil] at hs'
      exact hbody ⟨w.store.size, c.meter⟩ plan' w' hs' hplan
  simpa only [pure_bind] using hrun

/-- An iteration runs in a frame of its own, in which the name of the loop is bound. -/
theorem Runs.iteration {c : Context} {invoke : Invoke} {name : String} {body : List Stmt}
    {ts : List TypedStmt} (hs : Stands Δ ρ plan w c.frame senses pending)
    (h : TypesStmts Δ (.block [(name, .integer)] :: Γ) body ts)
    (hbody : ∀ (c : Context) (plan : Plan) (w : World),
      Stands Δ ρ plan w c.frame (senses.bind [(name, .integer, none)])
        (blockSenses ρ (senses.bind [(name, .integer, none)]) ts ++ pending.without [name]) →
      plan.Promises c.frame (blockSenses ρ (senses.bind [(name, .integer, none)]) ts) →
      Runs Δ ρ (some c.frame) plan (stmts invoke c .nil body) w whatever) (item : Value) :
    Runs Δ ρ none plan (newFrame c.frame >>= fun frame => Eval.define frame name item >>= fun _ =>
      stmts invoke { c with frame := frame } .nil body) w whatever := by
  have hnodup : (([(name, Ty.integer, none)] ++
      blockSenses ρ (senses.bind [(name, .integer, none)]) ts).map Prod.fst).Nodup := by
    rw [List.map_append, names_blockSenses]
    exact h.nodup (List.cons_ne_nil _ _) (by simp [Scope.ownNames, Level.block])
  refine Runs.enter (fun frame => Eval.define frame name item) hs hnodup
    (fun plan' w' hl hlt hplan => ?_)
    fun plan' w' hs' hplan => hbody ⟨w.store.size, c.meter⟩ plan' w' hs' hplan
  exact .define hl.follows hlt (hplan _ (List.mem_singleton_self _))
    (Value.suits_of_isPlain trivial)

/-- Statements that follow a statement stand in a frame in which its names are bound. -/
theorem stands_next {invoke : Invoke} (hi : RunsCalls Δ ρ invoke) {c : Context} {s : Stmt}
    {t : TypedStmt} {completion : Completion} {plan' : Plan} {w' : World}
    (hs : Stands Δ ρ plan w c.frame senses pending) (h : TypesStmt Δ Γ s t)
    (hplan : plan.Promises c.frame (t.meaning ρ senses))
    (hl : Later Δ ρ (some c.frame) plan w plan' w')
    (hrun : stmt invoke c s w = .ok completion w') :
    Stands Δ ρ plan' w' c.frame (senses.bind (t.meaning ρ senses))
      (pending.without ((t.meaning ρ senses).map Prod.fst)) := by
  have hnames := names_stmt hi.confined c s w hs.finds.lt_size
  rw [hrun] at hnames
  simp only [EStateM.Result.state_ok, EStateM.Result.isOk_ok, and_self, if_true] at hnames
  refine hs.bound hl ?_ (hplan.grows (hs.follows.size_eq ▸ hs.finds.lt_size) hl.plan)
  rw [hnames, t.names_meaning, h.names_eq]

/-! ## Trees -/

/-- The methods of an object are bound in the frame of its members, and find what is around the
object for good. -/
theorem runs_methods (c : Context) {o members : FrameId} {Γ : Scope} (hΓ : Γ.Memberless)
    {senses : Senses} : ∀ (ds : List Definition) {ts : List TypedDefinition} {plan : Plan}
    {w : World}, w.Follows Δ ρ plan → FindsForGood plan w.store c.frame senses →
    members < w.store.size → TypesMethods Δ Γ (.object o) ds ts → SteadyMethods .calls ρ o senses ts →
    (∀ t ∈ ts, plan.own? members t.name = some (t.ty, ρ o t.name)) →
    Runs Δ ρ (some members) plan (objectMethods c members ds) w fun _ _ w' =>
      ∀ t ∈ ts, t.name ∈ w'.store.names members
  | [], _, _, _, hw, _, _, h, _, _ => by
    cases h
    rw [objectMethods]
    exact .pure hw fun _ ht => by cases ht
  | d :: rest, _, plan, w, hw, hfinds, hmembers, h, hsteady, hplan => by
    cases h with
    | @cons _ _ _ t _ ts hd hrest =>
      rw [SteadyMethods] at hsteady
      obtain ⟨hreceiver, hsteady, hsteadyRest⟩ := hsteady
      rw [objectMethods]
      refine (Runs.requireFree hw members d.name).inner_bind ?_
      intro _ plan₁ w₁ hl₁ _
      have hsize := hw.size_eq
      have hplan₁ : ∀ t' ∈ t :: ts, plan₁.own? members t'.name = some (t'.ty, ρ o t'.name) := by
        intro t' ht'
        rw [hl₁.plan.own?_eq (hsize ▸ hmembers)]
        exact hplan t' ht'
      have hown : plan₁.own? members d.name = some (t.ty, some o) := by
        rw [← hreceiver, ← hd.name_eq]
        exact hplan₁ t List.mem_cons_self
      have hfinds₁ := hfinds.grows hsize hl₁.plan hl₁.world.store
      have hmembers₁ := hmembers.trans_le hl₁.world.store.size_le
      have hanswers (v : Value) : Closure.Answers .calls Δ ρ plan₁
          (w₁.store.append members d.name v) (t.parameters.map (·.ty)) t.returns (some o) d
          ⟨d.parameters.map (·.name), d.body, c.frame, c.meter, true⟩ :=
        ⟨Γ, senses, t, rfl, hΓ, hd, rfl, rfl,
          hfinds₁.grows hl₁.follows.size_eq (.refl _ _ _) (.append _ _ members d.name v), hsteady⟩
      refine .bindClosure (some o) hl₁.follows hmembers₁ hown hanswers
        fun id plan₂ w₂ hl₂ hnames => ?_
      have hmembers₂ := hmembers₁.trans_le hl₂.world.store.size_le
      refine (runs_methods c hΓ rest hl₂.follows
        (hfinds₁.grows hl₁.follows.size_eq hl₂.plan hl₂.world.store) hmembers₂ hrest hsteadyRest
        fun t' ht' => ?_).mono fun _ plan₃ w₃ hl₃ _ hbound t' ht' => ?_
      · rw [hl₂.plan.own?_eq (hl₁.follows.size_eq ▸ hmembers₁)]
        exact hplan₁ t' (List.mem_cons_of_mem _ ht')
      · rcases List.mem_cons.mp ht' with rfl | ht'
        · refine hl₃.world.store.names_subset hmembers₂ ?_
          rw [hnames, hd.name_eq]
          exact List.mem_append_right _ (List.mem_singleton_self _)
        · exact hbound t' ht'

/-- An object whose fields run in the frame of its members suits its type. -/
theorem runs_object (c : Context) {o : FrameId} {Γ : Scope} (hΓ : Γ.Memberless)
    {senses pending : Senses} {plan : Plan} {w : World}
    (hs : Stands Δ ρ plan w c.frame senses pending)
    (name : Option String) {invoke : Invoke} {fields : List Declaration} {methods : List Definition}
    {tfields : List TypedDeclaration} {tmethods : List TypedDefinition}
    (h : TypesMethods Δ Γ (.object o) methods tmethods)
    (hΔ : Δ o = memberBindings tfields tmethods) (hnodup : ((Δ o).map Prod.fst).Nodup)
    (hsteady : SteadyMethods .calls ρ o (senses ++ pending) tmethods)
    (hfields : ∀ plan' w', Stands Δ ρ plan' w' w.store.size senses
        (ρ.members o (memberBindings tfields tmethods) ++ pending) →
      (∀ t ∈ tfields, plan'.own? w.store.size t.name = some (t.ty, ρ o t.name)) →
      Runs Δ ρ (some w.store.size) plan' (objectFields invoke ⟨w.store.size, c.meter⟩ fields) w'
        fun _ _ w'' => ∀ t ∈ tfields, t.name ∈ w''.store.names w.store.size) :
    Runs Δ ρ none plan (newFrame c.frame >>= fun members =>
      objectFields invoke { c with frame := members } fields >>= fun _ =>
        objectMethods c members methods >>= fun _ => Pure.pure (Value.object name members)) w
      fun v plan' w' => v.Suits Δ ρ plan' w' (.object o, none) := by
  refine .opened hs (ρ.members o (Δ o)) fun hs₁ hbindings => ?_
  have hown : ∀ b ∈ memberBindings tfields tmethods,
      (plan.openWith c.frame (ρ.members o (Δ o))).own? w.store.size b.1 = some (b.2, ρ o b.1) :=
    fun b hb => Receivers.own?_members hbindings (lookup_eq_some_of_mem hnodup (hΔ ▸ hb))
  have hlt := hs₁.finds.lt_size
  have hsize := hs₁.follows.size_eq
  refine (hfields _ _ (hΔ ▸ hs₁) fun t ht => ?_).bind fun _ plan₂ w₂ hl₂ hboundFields => ?_
  · exact hown (t.name, t.ty) (List.mem_append_left _ (List.mem_map_of_mem ht))
  have hlt₂ := hlt.trans_le hl₂.world.store.size_le
  have hfinds : FindsForGood plan₂ w₂.store c.frame (senses ++ pending) :=
    hs.finds.forGood.grows hs.follows.size_eq ((plan.grows_openWith c.frame _).trans hl₂.plan)
      (((World.Grows.opened w c.frame).weaken _).trans hl₂.world).store
  refine (runs_methods c hΓ methods hl₂.follows hfinds hlt₂ h hsteady fun t ht => ?_).bind
    fun _ plan₃ w₃ hl₃ hboundMethods => ?_
  · rw [hl₂.plan.own?_eq (hsize ▸ hlt)]
    exact hown (t.name, t.ty) (List.mem_append_right _ (List.mem_map_of_mem ht))
  have hl := hl₂.trans hl₃
  refine .pure hl₃.follows ⟨name, _, rfl, hlt.trans_le hl.world.store.size_le, ?_, fun b hb => ?_⟩
  · rw [hl.plan.bindings_eq (hsize ▸ hlt), hbindings]
  · rw [hΔ, memberBindings] at hb
    rcases List.mem_append.mp hb with hb | hb
    · obtain ⟨t, ht, rfl⟩ := List.mem_map.mp hb
      exact hl₃.world.store.names_subset hlt₂ (hboundFields t ht)
    · obtain ⟨t, ht, rfl⟩ := List.mem_map.mp hb
      exact hboundMethods t ht

section Trees

set_option linter.unusedSectionVars false

variable {invoke : Invoke} (hi : RunsCalls Δ ρ invoke)
include hi

mutual

/-- An expression gives a value that suits its type. -/
theorem runs_expr (c : Context) {Γ : Scope} (hΓ : Γ.Memberless) {senses pending : Senses}
    {plan : Plan} {w : World} (hs : Stands Δ ρ plan w c.frame senses pending) :
    ∀ (e : Expr) {t : TypedExpr}, TypesExpr Δ Γ e t → t.Steady .calls ρ senses pending →
    Runs Δ ρ none plan (expr invoke c e) w fun v plan' w' =>
      v.Suits Δ ρ plan' w' (t.sense ρ senses)
  | .literal value, _, h, _ => by
    cases h
    rw [expr]
    refine .charged hs c.meter fun plan₁ w₁ hl₁ hs₁ => ?_
    exact .pure hs₁.follows (Value.suits_of_isPlain value.isPlain_ty)
  | .group inner, _, h, hsteady => by
    cases h with
    | group hinner =>
      rw [TypedExpr.Steady] at hsteady
      rw [expr]
      simp only [TypedExpr.sense, TypedExpr.ty, TypedExpr.receiver]
      refine .charged hs c.meter fun plan₁ w₁ hl₁ hs₁ => ?_
      exact runs_expr c hΓ hs₁ inner hinner hsteady
  | .binary op left right, _, h, hsteady => by
    cases h with
    | binary hleft hright hop =>
      rw [TypedExpr.Steady] at hsteady
      rw [expr]
      refine .charged hs c.meter fun plan₁ w₁ hl₁ hs₁ => ?_
      refine (runs_expr c hΓ hs₁ left hleft hsteady.1).bind ?_
      intro a plan₂ w₂ hl₂ _
      refine (Runs.result hl₂.follows fun e h => Operator.isOperand_decidedBy h).bind ?_
      intro decided plan₃ w₃ hl₃ _
      have hs₃ := (hs₁.later hl₂).later hl₃
      cases decided with
      | some v => exact .pure hl₃.follows (Value.suits_of_isPlain hop.isPlain)
      | none =>
        refine (runs_expr c hΓ hs₃ right hright hsteady.2).bind ?_
        intro b plan₄ w₄ hl₄ _
        refine .read ((Runs.result hl₄.follows fun e h => Operator.isOperand_apply h).mono ?_)
        intro v plan₅ w₅ _ _ _
        exact Value.suits_of_isPlain hop.isPlain
  | .variable name, _, h, hsteady => by
    cases h
    rw [TypedExpr.Steady] at hsteady
    rw [expr]
    refine .charged hs c.meter fun plan₁ w₁ hl₁ hs₁ => ?_
    refine (Runs.lookup hs₁ name).mono ?_
    rintro v plan₂ w₂ _ _ ⟨σ, hσ, hv⟩
    exact hv.serves (hsteady σ hσ)
  | .property receiver name, _, h, hsteady => by
    cases h with
    | @property _ _ t o _ ty hreceiver ho hty =>
      rw [TypedExpr.Steady] at hsteady
      rw [expr]
      refine .charged hs c.meter fun plan₁ w₁ hl₁ hs₁ => ?_
      refine (runs_expr c hΓ hs₁ receiver hreceiver hsteady).bind ?_
      intro object plan₂ w₂ hl₂ hobject
      rw [TypedExpr.sense, ho] at hobject
      rw [hΓ.members_eq] at hty
      obtain ⟨label, members, v, rfl, hown, -, hv⟩ := hobject.member hl₂.follows hty
      rw [membersOf_bind]
      refine .of_ok (member_of_own? hown) (.refl hl₂.follows none) ?_
      simp only [TypedExpr.sense, TypedExpr.ty, TypedExpr.receiver, ho]
      exact hv
  | .call name arguments, _, h, hsteady => by
    cases h with
    | call _ harguments =>
      rw [TypedExpr.Steady] at hsteady
      obtain ⟨htakes, hsteady⟩ := hsteady
      rw [expr]
      refine .charged hs c.meter fun plan₁ w₁ hl₁ hs₁ => ?_
      refine (Runs.lookup hs₁ name).bind ?_
      rintro target plan₂ w₂ hl₂ ⟨σ, hσ, hv⟩
      obtain ⟨params, result, rfl, hserves, hparams⟩ := htakes σ hσ
      obtain ⟨id, -, rfl, -⟩ := id hv
      rw [callable_bind]
      refine (runs_exprs c hΓ (hs₁.later hl₂) arguments harguments hsteady).bind ?_
      intro values plan₃ w₃ hl₃ hlength
      have hvalues : Arguments Δ ρ plan₃ w₃ params none values :=
        hlength.trans hparams.length_eq
      exact (hi.runs hl₃.follows (hv.later hl₂.follows hl₃) hvalues).mono
        fun v plan₄ w₄ _ _ hv => hv.serves hserves
  | .method receiver name arguments, _, h, hsteady => by
    cases h with
    | method hreceiver ho hty harguments =>
      rw [TypedExpr.Steady] at hsteady
      obtain ⟨hmethod, hsteadyReceiver, hsteady⟩ := hsteady
      rw [expr]
      refine .charged hs c.meter fun plan₁ w₁ hl₁ hs₁ => ?_
      refine (runs_expr c hΓ hs₁ receiver hreceiver hsteadyReceiver).bind ?_
      intro object plan₂ w₂ hl₂ hobject
      have hs₂ := hs₁.later hl₂
      rw [TypedExpr.sense, ho] at hobject
      rw [hΓ.members_eq] at hty
      obtain ⟨label, members, v, rfl, hown, -, hv⟩ := hobject.member hl₂.follows hty
      rw [hmethod _ ho] at hv
      obtain ⟨id, -, rfl, -⟩ := id hv
      rw [membersOf_bind]
      refine .bind_of_ok (member_of_own? hown) (.refl hl₂.follows none) ?_
      rw [callable_bind]
      refine (runs_exprs c hΓ hs₂ arguments harguments hsteady).bind ?_
      intro values plan₃ w₃ hl₃ hlength
      have hthis : Value.Suits Δ ρ plan₃ w₃ (.object label members) (.object _, none) :=
        (hobject.later hl₂.follows hl₃).serves fun _ => ⟨.refl _, fun h => h.elim⟩
      exact hi.runs hl₃.follows (hv.later hl₂.follows hl₃)
        ⟨_, values, rfl, hlength.trans harguments.forall₂_below.length_eq, hthis⟩
  | .object name fields methods, _, h, hsteady => by
    cases h with
    | @object _ _ o _ _ tfields tmethods _ hfields hmethods hΔ hnodup =>
      rw [TypedExpr.Steady] at hsteady
      obtain ⟨hsteadyFields, hsteadyMethods⟩ := hsteady o rfl
      rw [expr]
      refine .charged hs c.meter fun plan₁ w₁ hl₁ hs₁ => ?_
      exact runs_object c hΓ hs₁ name hmethods hΔ hnodup hsteadyMethods
        fun plan₂ w₂ hs₂ hplan => runs_fields ⟨w₁.store.size, c.meter⟩ hΓ hs₂ fields hfields
          hsteadyFields hplan

theorem runs_exprs (c : Context) {Γ : Scope} (hΓ : Γ.Memberless) {senses pending : Senses}
    {plan : Plan} {w : World} (hs : Stands Δ ρ plan w c.frame senses pending) :
    ∀ (es : List Expr) {params : List Ty} {ts : List TypedExpr}, TypesArguments Δ Γ es params ts →
    SteadyExprs .calls ρ senses pending ts →
    Runs Δ ρ none plan (exprs invoke c es) w fun vs _ _ => vs.length = ts.length
  | [], _, _, h, _ => by
    cases h
    rw [exprs]
    exact .pure hs.follows rfl
  | e :: rest, _, _, h, hsteady => by
    cases h with
    | cons he _ hrest =>
      rw [SteadyExprs] at hsteady
      rw [exprs]
      refine (runs_expr c hΓ hs e he hsteady.1).bind ?_
      intro v plan₁ w₁ hl₁ _
      refine (runs_exprs c hΓ (hs.later hl₁) rest hrest hsteady.2).bind ?_
      intro vs plan₂ w₂ hl₂ hlength
      exact .pure hl₂.follows (congrArg (· + 1) hlength)

theorem runs_optionalExpr (c : Context) {Γ : Scope} (hΓ : Γ.Memberless) {senses pending : Senses}
    {plan : Plan} {w : World} (hs : Stands Δ ρ plan w c.frame senses pending) :
    ∀ (e : Option Expr) {t : Option TypedExpr}, TypesOption Δ Γ e t →
    SteadyOption .calls ρ senses pending t →
    Runs Δ ρ none plan (optionalExpr invoke c e) w fun v plan' w' =>
      ∀ u ∈ t, v.Suits Δ ρ plan' w' (u.sense ρ senses)
  | none, _, h, _ => by
    cases h
    rw [optionalExpr]
    exact .pure hs.follows fun _ hu => by cases hu
  | some e, _, h, hsteady => by
    cases h with
    | some he =>
      rw [SteadyOption] at hsteady
      rw [optionalExpr]
      refine (runs_expr c hΓ hs e he hsteady).mono ?_
      rintro v plan₁ w₁ _ _ hv _ ⟨⟩
      exact hv

/-- A declaration binds its name to a value that suits the plan. -/
theorem runs_declaration (c : Context) {Γ : Scope} (hΓ : Γ.Memberless) {senses pending : Senses}
    {plan : Plan} {w : World} (hs : Stands Δ ρ plan w c.frame senses pending) :
    ∀ (d : Declaration) {t : TypedDeclaration} {receiver : Option FrameId},
    TypesDeclaration Δ Γ d t → t.Steady .calls ρ senses pending → t.Binds ρ senses receiver →
    plan.own? c.frame t.name = some (t.ty, receiver) →
    Runs Δ ρ (some c.frame) plan (declaration invoke c d) w fun _ _ w' =>
      w'.store.names c.frame = w.store.names c.frame ++ [d.name]
  | ⟨name, typeName, value⟩, _, receiver, h, hsteady, hbinds, hplan => by
    cases h with
    | mk hvalue hdeclares =>
      rw [TypedDeclaration.Steady] at hsteady
      rw [declaration]
      refine (Runs.requireFree hs.follows c.frame name).inner_bind ?_
      intro _ plan₁ w₁ hl₁ _
      have hs₁ := hs.later hl₁
      refine (runs_optionalExpr c hΓ hs₁ value hvalue hsteady).inner_bind ?_
      intro v plan₂ w₂ hl₂ hv
      have hs₂ := hs₁.later hl₂
      have hl := hl₁.trans hl₂
      have hplan₂ := (hl.plan.own?_eq (hs.follows.size_eq ▸ hs.finds.lt_size) name).trans hplan
      have hsuits := hdeclares.suits hv hbinds
      refine (Runs.define hl₂.follows hs₂.finds.lt_size hplan₂ ?_).bind
        fun _ plan₃ w₃ hl₃ hnames => ?_
      · exact hsuits.grows hl₂.follows.size_eq (.refl _ _ _) (.of_store (.append _ _ _ _ _))
      · refine .pure hl₃.follows ?_
        rw [hnames, hl.world.names_eq hs.finds.lt_size]

theorem runs_fields (c : Context) {o : FrameId} {Γ : Scope} (hΓ : Γ.Memberless)
    {senses pending : Senses} {plan : Plan} {w : World}
    (hs : Stands Δ ρ plan w c.frame senses pending) : ∀ (ds : List Declaration)
    {ts : List TypedDeclaration}, TypesFields Δ Γ ds ts →
    SteadyFields .calls ρ o senses pending ts →
    (∀ t ∈ ts, plan.own? c.frame t.name = some (t.ty, ρ o t.name)) →
    Runs Δ ρ (some c.frame) plan (objectFields invoke c ds) w fun _ _ w' =>
      ∀ t ∈ ts, t.name ∈ w'.store.names c.frame
  | [], _, h, _, _ => by
    cases h
    rw [objectFields]
    exact .pure hs.follows fun _ ht => by cases ht
  | d :: rest, _, h, hsteady, hplan => by
    cases h with
    | @cons _ _ t _ ts hd hrest =>
      rw [SteadyFields] at hsteady
      obtain ⟨hbinds, hsteady, hsteadyRest⟩ := hsteady
      rw [objectFields]
      refine (runs_declaration c hΓ hs d hd hsteady hbinds (hplan t List.mem_cons_self)).bind ?_
      intro _ plan₁ w₁ hl₁ hnames
      have hplan₁ : ∀ t' ∈ t :: ts, plan₁.own? c.frame t'.name = some (t'.ty, ρ o t'.name) := by
        intro t' ht'
        rw [hl₁.plan.own?_eq (hs.follows.size_eq ▸ hs.finds.lt_size)]
        exact hplan t' ht'
      -- the fields after it find this field instead of what is around the object
      have hs₁ : Stands Δ ρ plan₁ w₁ c.frame (senses.bind [(t.name, t.ty, ρ o t.name)])
          (pending.without [t.name]) :=
        hs.bound hl₁ (by rw [hnames, ← hd.name_eq]; rfl) fun b hb => by
          rw [List.mem_singleton.mp hb]
          exact hplan₁ t List.mem_cons_self
      refine (runs_fields c hΓ hs₁ rest hrest hsteadyRest fun t' ht' =>
        hplan₁ t' (List.mem_cons_of_mem _ ht')).mono fun _ plan₂ w₂ hl₂ _ hbound t' ht' => ?_
      rcases List.mem_cons.mp ht' with rfl | ht'
      · refine hl₂.world.store.names_subset hs₁.finds.lt_size ?_
        rw [hnames, hd.name_eq]
        exact List.mem_append_right _ (List.mem_singleton_self _)
      · exact hbound t' ht'

theorem runs_stmt (c : Context) {Γ : Scope} (hΓ : Γ.Memberless) {senses pending : Senses}
    {plan : Plan} {w : World} (hs : Stands Δ ρ plan w c.frame senses pending) :
    ∀ (s : Stmt) {t : TypedStmt}, TypesStmt Δ Γ s t → t.Steady .calls ρ senses pending →
    plan.Promises c.frame (t.meaning ρ senses) →
    Runs Δ ρ (some c.frame) plan (stmt invoke c s) w whatever
  | .declare d, _, h, hsteady, hplan => by
    cases h with
    | @declare _ _ t _ hd =>
      rw [TypedStmt.Steady] at hsteady
      rw [stmt]
      refine .charged hs c.meter fun plan₁ w₁ hl₁ hs₁ => ?_
      have hplan₁ := hplan.grows (hs.follows.size_eq ▸ hs.finds.lt_size) hl₁.plan
      refine (runs_declaration c hΓ hs₁ d hd hsteady.2 t.binds_receiver
        (hplan₁ _ (List.mem_singleton_self _))).bind fun v plan₂ w₂ hl₂ _ => ?_
      exact .pure hl₂.follows trivial
  | .define d, _, h, hsteady, hplan => by
    cases h with
    | @define _ _ t _ hd =>
      rw [TypedStmt.Steady, hd.name_eq] at hsteady
      rw [TypedStmt.meaning, hd.name_eq] at hplan
      rw [stmt]
      refine .charged hs c.meter fun plan₁ w₁ hl₁ hs₁ => ?_
      refine (Runs.requireFree hs₁.follows c.frame d.name).inner_bind ?_
      intro _ plan₂ w₂ hl₂ _
      have hs₂ := hs₁.later hl₂
      have hplan₂ : plan₂.Promises c.frame [(d.name, t.ty, none)] :=
        hplan.grows (hs.follows.size_eq ▸ hs.finds.lt_size) (hl₁.trans hl₂).plan
      have hanswers (v : Value) : Closure.Answers .calls Δ ρ plan₂
          (w₂.store.append c.frame d.name v) (t.parameters.map (·.ty)) t.returns none d
          ⟨d.parameters.map (·.name), d.body, c.frame, c.meter, false⟩ :=
        ⟨_, _, t, rfl, hΓ.bind _, hd, rfl, rfl, hs₂.finds.define hs₂.follows.size_eq hplan₂ v,
          hsteady.2⟩
      exact .bindClosure none hl₂.follows hs₂.finds.lt_size
        (hplan₂ _ (List.mem_singleton_self _)) hanswers
        fun id plan₃ w₃ hl₃ _ => .pure hl₃.follows trivial
  | .branch condition thenBody elseBody, _, h, hsteady, _ => by
    cases h with
    | branch hcondition _ hthen helse =>
      rw [TypedStmt.Steady] at hsteady
      obtain ⟨hsteadyCondition, hsteadyThen, hsteadyElse⟩ := hsteady
      rw [stmt]
      refine .charged hs c.meter fun plan₁ w₁ hl₁ hs₁ => ?_
      refine (runs_expr c hΓ hs₁ condition hcondition hsteadyCondition).inner_bind ?_
      intro v plan₂ w₂ hl₂ _
      refine (Runs.result hl₂.follows fun e h => Value.isOperand_truth h).inner_bind ?_
      intro holds plan₃ w₃ hl₃ _
      have hs₃ := (hs₁.later hl₂).later hl₃
      refine Runs.weaken ?_ _
      cases holds with
      | true =>
        exact .block hs₃ hthen fun c plan w hs hplan =>
          runs_stmts c .nil (hΓ.block _) hs thenBody hthen hsteadyThen hplan
      | false =>
        exact .block hs₃ helse fun c plan w hs hplan =>
          runs_stmts c .nil (hΓ.block _) hs elseBody helse hsteadyElse hplan
  | .forEach name items body, _, h, hsteady, _ => by
    cases h with
    | forEach hitems _ hbody =>
      rw [TypedStmt.Steady] at hsteady
      obtain ⟨-, hsteadyItems, hsteadyBody⟩ := hsteady
      rw [stmt]
      refine .charged hs c.meter fun plan₁ w₁ hl₁ hs₁ => ?_
      refine (runs_expr c hΓ hs₁ items hitems hsteadyItems).inner_bind ?_
      intro v plan₂ w₂ hl₂ _
      refine (Runs.itemsOf hl₂.follows v).inner_bind ?_
      intro values plan₃ w₃ hl₃ _
      refine Runs.weaken (.forEach (fun item plan w hs => ?_) values ((hs₁.later hl₂).later hl₃)) _
      exact .iteration hs hbody (fun c plan w hs hplan =>
        runs_stmts c .nil (hΓ.block _) hs body hbody hsteadyBody hplan) item
  | .ret value, _, h, hsteady, _ => by
    cases h with
    | ret _ hvalue _ =>
      rw [TypedStmt.Steady] at hsteady
      rw [stmt]
      refine .charged hs c.meter fun plan₁ w₁ hl₁ hs₁ => ?_
      refine (runs_optionalExpr c hΓ hs₁ value hvalue hsteady).inner_bind ?_
      intro v plan₂ w₂ hl₂ _
      exact .pure hl₂.follows trivial
  | .expression value, _, h, hsteady, _ => by
    cases h with
    | expression hvalue =>
      rw [TypedStmt.Steady] at hsteady
      rw [stmt]
      refine .charged hs c.meter fun plan₁ w₁ hl₁ hs₁ => ?_
      refine (runs_expr c hΓ hs₁ value hvalue hsteady).inner_bind ?_
      intro v plan₂ w₂ hl₂ _
      exact .pure hl₂.follows trivial
  | .assign (.variable name) value, _, h, hsteady, _ => by
    cases h with
    | assignVariable _ hvalue _ =>
      rw [TypedStmt.Steady] at hsteady
      obtain ⟨hserves, hsteady⟩ := hsteady
      rw [stmt]
      refine .charged hs c.meter fun plan₁ w₁ hl₁ hs₁ => ?_
      refine (Runs.lookup hs₁ name).inner_bind ?_
      intro _ plan₂ w₂ hl₂ _
      have hs₂ := hs₁.later hl₂
      refine (runs_expr c hΓ hs₂ value hvalue hsteady).inner_bind ?_
      intro v plan₃ w₃ hl₃ hv
      refine (Runs.set (hs₂.later hl₃) fun σ hσ => hv.serves (hserves σ hσ)).inner_bind ?_
      intro _ plan₄ w₄ hl₄ _
      exact .pure hl₄.follows trivial
  | .assign (.property receiver name) value, _, h, hsteady, _ => by
    cases h with
    | assignProperty hreceiver ho hty hvalue hbelow =>
      rw [TypedStmt.Steady] at hsteady
      obtain ⟨hmember, hsteadyReceiver, hsteady⟩ := hsteady
      rw [stmt]
      refine .charged hs c.meter fun plan₁ w₁ hl₁ hs₁ => ?_
      refine (runs_expr c hΓ hs₁ receiver hreceiver hsteadyReceiver).inner_bind ?_
      intro object plan₂ w₂ hl₂ hobject
      rw [TypedExpr.sense, ho] at hobject
      rw [hΓ.members_eq] at hty
      obtain ⟨label, members, old, rfl, hown, -⟩ := hobject.member hl₂.follows hty
      rw [membersOf_bind]
      refine .bind_of_ok (member_of_own? hown) (.refl hl₂.follows _) ?_
      refine (runs_expr c hΓ (hs₁.later hl₂) value hvalue hsteady).inner_bind ?_
      intro v plan₃ w₃ hl₃ hv
      have hobject₃ := hobject.later hl₂.follows hl₃
      obtain ⟨_, _, _, ⟨⟩, hown₃, hplan, -⟩ := hobject₃.member hl₃.follows hty
      have hl₄ := Later.replace hl₃.follows hplan
        (hv.serves fun _ => ⟨hbelow, hmember _ ho⟩)
      exact .bind_of_ok (setOwn_of_own? hown₃ v) (hl₄.weaken _) (.pure hl₄.follows trivial)

theorem runs_stmts (c : Context) (last : Value) {Γ : Scope} (hΓ : Γ.Memberless)
    {senses pending : Senses} {plan : Plan} {w : World}
    (hs : Stands Δ ρ plan w c.frame senses pending) :
    ∀ (body : List Stmt) {ts : List TypedStmt}, TypesStmts Δ Γ body ts →
    SteadyStmts .calls ρ senses pending ts →
    plan.Promises c.frame (blockSenses ρ senses ts) →
    Runs Δ ρ (some c.frame) plan (stmts invoke c last body) w whatever
  | [], _, _, _, _ => by
    rw [stmts]
    exact .pure hs.follows trivial
  | s :: rest, _, h, hsteady, hplan => by
    cases h with
    | @cons _ _ t _ ts hstmt hrest =>
      rw [SteadyStmts] at hsteady
      rw [blockSenses] at hplan
      have hplanStmt := hplan.mono (List.subset_append_left _ _)
      have hplanRest := hplan.mono (List.subset_append_right _ _)
      rw [stmts]
      have hrun := (runs_stmt c hΓ hs s hstmt hsteady.1 hplanStmt).mono
        fun completion plan₁ w₁ hl₁ hr _ => stands_next hi hs hstmt hplanStmt hl₁ hr
      refine hrun.bind fun completion plan₁ w₁ hl₁ hs₁ => ?_
      cases completion with
      | returned v => exact .pure hs₁.follows trivial
      | normal v =>
        exact runs_stmts c v (hΓ.bind _) hs₁ rest hrest hsteady.2
          (hplanRest.grows (hs.follows.size_eq ▸ hs.finds.lt_size) hl₁.plan)

end

end Trees

/-! ## Calls of defined functions -/

/-- A closure binds in a call what the definition says that it was made of. -/
theorem names_callSenses {d : Definition} {t : TypedDefinition} {receiver : Option FrameId}
    {captured : FrameId} {m : MeterId} (h : TypesDefinition Δ Γ (receiver.map .object) d t) :
    (callSenses receiver t.parameters).map Prod.fst =
      Closure.bindings ⟨d.parameters.map (·.name), d.body, captured, m, receiver.isSome⟩ := by
  cases h with
  | mk hparameters =>
    rw [Closure.bindings, callSenses, Senses.names_ofTypes]
    dsimp only
    rw [(parameters_of_types hparameters).1]
    cases receiver <;> simp [callBindings]

namespace Arguments

variable {receiver : Option FrameId} {parameters : List TypedParameter} {arguments : List Value}

theorem later {params : List Ty} {plan' : Plan} {w' : World}
    (h : Arguments Δ ρ plan w params receiver arguments) (hw : w.Follows Δ ρ plan)
    (hl : Later Δ ρ g plan w plan' w') : Arguments Δ ρ plan' w' params receiver arguments := by
  cases receiver with
  | none => exact h
  | some o =>
    obtain ⟨this, rest, rfl, hlength, hthis⟩ := h
    exact ⟨this, rest, rfl, hlength, hthis.later hw hl⟩

/-- There are as many arguments as a call binds names. -/
theorem length_eq (h : Arguments Δ ρ plan w (parameters.map (·.ty)) receiver arguments) :
    arguments.length = (callSenses receiver parameters).length := by
  cases receiver with
  | none =>
    have hlength : arguments.length = (parameters.map (·.ty)).length := h
    simpa [callSenses, Senses.ofTypes, callBindings] using hlength
  | some o =>
    obtain ⟨this, rest, rfl, hlength, -⟩ := h
    simpa [callSenses, Senses.ofTypes, callBindings, Nat.add_comm] using hlength

/-- The arguments suit what they are bound to. -/
theorem suits (h : Arguments Δ ρ plan w (parameters.map (·.ty)) receiver arguments)
    (hplain : ∀ p ∈ parameters, p.ty.IsPlain) {b : (String × Sense) × Value}
    (hb : b ∈ (callSenses receiver parameters).zip arguments) :
    b.2.Suits Δ ρ plan w b.1.2 := by
  have hparameter {arguments : List Value}
      (hb : b ∈ (Senses.ofTypes (parameters.map fun p => (p.name, p.ty))).zip arguments) :
      b.2.Suits Δ ρ plan w b.1.2 := by
    obtain ⟨_, hmem, heq⟩ := List.mem_map.mp (List.of_mem_zip hb).1
    obtain ⟨p, hp, rfl⟩ := List.mem_map.mp hmem
    exact Value.suits_of_isPlain (heq ▸ hplain p hp)
  cases receiver with
  | none => exact hparameter hb
  | some o =>
    obtain ⟨this, rest, rfl, -, hthis⟩ := h
    rcases List.mem_cons.mp hb with rfl | hb
    · exact hthis
    · exact hparameter hb

end Arguments

/-- The body of a function that suits its type runs in a frame that binds what a call binds. -/
theorem runs_body {n : Nat} (hi : RunsCalls Δ ρ (call n)) {c : Closure} {d : Definition}
    {params : List Ty} {returns : Ty} {receiver : Option FrameId} {arguments : List Value}
    (hw : w.Follows Δ ρ plan)
    (hc : c.Answers .calls Δ ρ plan w.store params returns receiver d)
    (ha : Arguments Δ ρ plan w params receiver arguments) :
    Runs Δ ρ none plan (runBody (n + 1) c arguments) w whatever := by
  obtain ⟨Γ, senses, t, hclosure, hΓ, htypes, rfl, rfl, hfinds, hsteady⟩ := hc
  have hbound : (callSenses receiver t.parameters).map Prod.fst = c.bindings := by
    rw [hclosure]
    exact names_callSenses htypes
  have hnodup : ((callSenses receiver t.parameters ++ blockSenses ρ
      (senses.bind (callSenses receiver t.parameters)) t.body).map Prod.fst).Nodup := by
    rw [List.map_append, names_blockSenses, callSenses, Senses.names_ofTypes]
    exact htypes.nodup
  have hlength : c.bindings.length ≤ arguments.length := by
    rw [← hbound, List.length_map]
    exact ha.length_eq.ge
  refine Runs.enter (fun frame => Eval.defineAll frame (c.bindings.zip arguments))
    ⟨hw, hfinds.finds⟩ hnodup (fun plan' w' hl hlt hplan => ?_) fun plan' w' hs' hplan => ?_
  · refine (Runs.defineAll hl.follows hlt fun b hb => ?_).mono fun _ _ w₂ _ _ hnames => ?_
    · rw [← hbound, List.zip_map_left] at hb
      obtain ⟨b', hb', rfl⟩ := List.mem_map.mp hb
      exact ⟨_, hplan b'.1 (List.of_mem_zip hb').1,
        (ha.suits htypes.parameters_isPlain hb').later hw hl⟩
    · rw [hnames, List.map_fst_zip hlength, hbound]
  · rw [Senses.without, List.filter_nil, List.append_nil] at hs'
    have hrun := runs_stmts hi ⟨w.store.size, c.meter⟩ .nil (hΓ.block _) hs' d.body htypes.body
      hsteady.body hplan
    rw [hclosure] at hrun ⊢
    exact hrun.bind fun completion plan₁ w₁ hl₁ _ => .pure hl₁.follows trivial

theorem runs_call {n : Nat} (hbody : ∀ {c : Closure} {d : Definition} {plan : Plan} {w : World}
      {params : List Ty} {returns : Ty} {receiver : Option FrameId} {arguments : List Value},
      w.Follows Δ ρ plan → c.Answers .calls Δ ρ plan w.store params returns receiver d →
      Arguments Δ ρ plan w params receiver arguments →
      Runs Δ ρ none plan (runBody n c arguments) w whatever)
    {id : FunctionId} {params : List Ty} {returns : Ty} {receiver : Option FrameId}
    {arguments : List Value} (hw : w.Follows Δ ρ plan)
    (hid : (Value.function id).Suits Δ ρ plan w (.function params returns, receiver))
    (ha : Arguments Δ ρ plan w params receiver arguments) :
    Runs Δ ρ none plan (call n id arguments) w fun v plan' w' =>
      v.Suits Δ ρ plan' w' (returns, none) := by
  obtain ⟨_, ⟨name, code⟩, ⟨⟩, hfunction, hcode⟩ := hid
  have hfind : w.function id = ⟨name, code⟩ := by
    rw [World.function, Array.getD_eq_getD_getElem?, hfunction]
    rfl
  rw [call_eq]
  refine .read ?_
  rw [hfind]
  cases code with
  | host f =>
    obtain ⟨rfl, hty⟩ := hcode
    exact (Runs.host hw name hty ha).mono fun _ _ _ _ _ _ =>
      Value.suits_of_isPlain (HostFunction.isPlain_returns hty)
  | closure c =>
    obtain ⟨d, hc⟩ := hcode
    have hanswers := hc
    obtain ⟨Γ, senses, t, hclosure, -, htypes, rfl, rfl, -⟩ := hanswers
    have hlength : arguments.length = c.bindings.length := by
      rw [ha.length_eq, hclosure, ← names_callSenses htypes, List.length_map]
    have hrequire : requireArguments name c.bindings arguments w = .ok () w :=
      congrFun (if_pos hlength) w
    refine .bind_of_ok hrequire (.refl hw none) ?_
    refine (Runs.withCall hw fun w' hl => ?_).mono fun _ _ _ _ _ _ =>
      Value.suits_of_isPlain htypes.denotes_returns.isPlain
    exact hbody hl.follows (hc.grows hw.size_eq hl.plan hl.world.store) (ha.later hw hl)

/-- Calls run in a world that follows a plan. -/
theorem runsCalls (n : Nat) : RunsCalls Δ ρ (call n) := by
  induction n with
  | zero => exact ⟨call_confined 0, runs_call fun _ _ _ => Ends.of_error rfl id⟩
  | succ n ih => exact ⟨call_confined (n + 1), runs_call fun hw hc ha => runs_body ih hw hc ha⟩

end Eval

/-- A well-typed, steady block that is run as a program does not misuse functions and objects. -/
theorem Program.runs_fueled {Δ : FrameId → List (String × Ty)} {ρ : Receivers} {plan : Plan}
    {w : World} {Γ : Scope} {senses pending : Senses} {c : Context} {p : Program}
    {ts : List TypedStmt} (n : Nat) (hΓ : Γ.Memberless)
    (hs : Stands Δ ρ plan w c.frame senses pending) (h : TypesStmts Δ Γ p.statements ts)
    (hsteady : SteadyStmts .calls ρ senses pending ts)
    (hplan : plan.Promises c.frame (blockSenses ρ senses ts)) :
    Eval.Runs Δ ρ (some c.frame) plan (p.runFueled n c) w Eval.whatever := by
  refine (Eval.runs_stmts (Eval.runsCalls n) c .nil hΓ hs p.statements h hsteady hplan).bind ?_
  intro completion plan₁ w₁ hl₁ _
  cases completion with
  | normal v => exact .pure hl₁.follows trivial
  | returned v => exact Ends.of_error rfl id

end ObjectLang
