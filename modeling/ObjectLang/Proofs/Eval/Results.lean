import ObjectLang.Proofs.Eval.CallSafety
import ObjectLang.Proofs.Eval.Yields

/-!
# Values and results of well-typed programs

In a well-typed program that is steady in its values and gives initial values to its variables,
expressions yield values of their types, and functions results of the types that they declare. Only
functions that fall off their ends break their promise, and what breaks one later is the empty value
that such a function has left behind.
-/

namespace ObjectLang

theorem Denotes.unique {typeName : Option String} {ty ty' : Ty} (h : Denotes typeName ty)
    (h' : Denotes typeName ty') : ty = ty' := by
  cases h with
  | none =>
    cases h'
    rfl
  | some hname =>
    cases h' with
    | some hname' =>
      have hfound := Ty.ofName?_of_name? hname
      rw [Ty.ofName?_of_name? hname'] at hfound
      exact (Option.some.inj hfound).symm

theorem TypesOption.isSome_eq {Δ : FrameId → List (String × Ty)} {Γ : Scope} {e : Option Expr}
    {t : Option TypedExpr} (h : TypesOption Δ Γ e t) : e.isSome = t.isSome := by
  cases h <;> rfl

/-- An initial value of its own type is of the type that the name is declared with. -/
theorem Declares.obeys {Δ : FrameId → List (String × Ty)} {ρ : Receivers} {plan : Plan}
    {r : Trace Eval.Event World} {senses : Senses} {v : Value} {typeName : Option String}
    {value : Option TypedExpr} {ty : Ty} {receiver : Option FrameId}
    (h : Declares typeName value ty) (hinit : typeName.isSome → value.isSome)
    (hv : v.Obeys Δ ρ plan r (value.elim .nil (·.ty), value.elim none (·.receiver ρ senses)))
    (hreceiver : ty.IsFunction → ∀ t ∈ value, t.receiver ρ senses = receiver) :
    v.Obeys Δ ρ plan r (ty, receiver) := by
  cases h with
  | neither => exact .any _ v
  | value t => exact hv.serves fun _ => ⟨.refl _, fun hfunction => hreceiver hfunction t rfl⟩
  | typeName _ => exact absurd (hinit rfl) (by simp)
  | both _ hbelow => exact hv.serves fun _ => ⟨hbelow, fun hfunction => hreceiver hfunction _ rfl⟩

namespace Eval.Traced

open TraceM

variable {Δ : FrameId → List (String × Ty)} {ρ : Receivers} {g : Option FrameId} {plan plan' : Plan}
  {r r' : Trace Event World} {f : FrameId} {Γ : Scope} {senses pending : Senses}

/-! ## Calls -/

/-- The values meet the types. -/
def Meet (r : Trace Event World) (types : List Ty) (values : List Value) : Prop :=
  List.Forall₂ (fun ty v => v.Meets (FallsOff (events r.past)) ty) types values

theorem Meet.later {types : List Ty} {values : List Value} (h : Meet r types values)
    (hl : r.Continues Δ ρ g plan plan' r') : Meet r' types values :=
  h.imp fun _ _ hv => hv.mono fun hfalls => hfalls.mono hl.past

/-- Values of expressions meet the types that those of the expressions are below. -/
theorem Meet.of_below {ts : List TypedExpr} {types : List Ty} {values : List Value}
    (hvalues : List.Forall₂ (fun t v => v.Obeys Δ ρ plan r (t.sense ρ senses)) ts values)
    (hbelow : List.Forall₂ (fun t ty => t.ty.Below ty) ts types) : Meet r types values := by
  induction hvalues generalizing types with
  | nil =>
    cases hbelow
    exact .nil
  | cons hv _ ih =>
    cases hbelow with
    | cons hbelow hrest => exact .cons (hv.meets.below hbelow) (ih hrest)

/-- The arguments are of the types of the parameters, and the receiver, which comes first, is an
object of its type. -/
def Arguments (Δ : FrameId → List (String × Ty)) (ρ : Receivers) (plan : Plan)
    (r : Trace Event World) (params : List Ty) : Option FrameId → List Value → Prop
  | none, arguments => Meet r params arguments
  | some o, arguments => ∃ this rest, arguments = this :: rest ∧ Meet r params rest ∧
      this.Obeys Δ ρ plan r (.object o, none)

theorem Arguments.later {params : List Ty} {receiver : Option FrameId} {arguments : List Value}
    (h : Arguments Δ ρ plan r params receiver arguments) (hr : r.Obeys Δ ρ plan)
    (hl : r.Continues Δ ρ g plan plan' r') : Arguments Δ ρ plan' r' params receiver arguments := by
  cases receiver with
  | none => exact Meet.later h hl
  | some o =>
    obtain ⟨this, rest, rfl, hrest, hthis⟩ := h
    exact ⟨this, rest, rfl, hrest.later hl, hthis.later hr hl⟩

/-- Calls of functions with arguments of the types of their parameters go as the plain ones, and
yield results of the types of the functions. -/
structure YieldsCalls (Δ : FrameId → List (String × Ty)) (ρ : Receivers) (invoke' : Invoke)
    (invoke : Eval.Invoke) : Prop where
  confined : ∀ id arguments, Confined none (invoke id arguments)
  tracked : ∀ id arguments, Tracked none (invoke' id arguments) (invoke id arguments)
  yields : ∀ {plan : Plan} {r : Trace Event World} {id : FunctionId} {params : List Ty}
    {returns : Ty} {receiver : Option FrameId} {arguments : List Value}, r.Obeys Δ ρ plan →
    (Value.function id).Obeys Δ ρ plan r (.function params returns, receiver) →
    Arguments Δ ρ plan r params receiver arguments →
    Yields Δ ρ none plan (invoke' id arguments) r fun v plan' r' =>
      v.Obeys Δ ρ plan' r' (returns, none)

/-! ## Blocks -/

/-- The block of a branch runs in a frame of its own. -/
theorem Yields.block {c : Context} {invoke : Invoke} {body : List Stmt} {ts : List TypedStmt}
    {returns : Ty} (hs : r.Stands Δ ρ plan c.frame senses pending)
    (h : TypesStmts Δ (.block [] :: Γ) body ts)
    (hbody : ∀ (c : Context) (plan : Plan) (r : Trace Event World),
      r.Stands Δ ρ plan c.frame senses (blockSenses ρ senses ts ++ pending) →
      plan.Promises c.frame (blockSenses ρ senses ts) →
      Yields Δ ρ (some c.frame) plan (stmts invoke c .nil body) r (Returning returns)) :
    Yields Δ ρ none plan
      (TraceM.step (newFrame c.frame) >>= fun frame =>
        stmts invoke { c with frame := frame } .nil body) r (Returning returns) := by
  have hnodup : (([] ++ blockSenses ρ senses ts).map Prod.fst).Nodup := by
    rw [List.nil_append, names_blockSenses]
    exact h.nodup (List.cons_ne_nil _ _) List.nodup_nil
  have hrun := Yields.enter (fun _ => Pure.pure ())
    (k := fun frame => stmts invoke { c with frame := frame } .nil body) (R := Returning returns)
    hs hnodup (fun _ _ _ hr _ _ => .pure hr (by simp)) fun plan' r' _ hs' hplan => by
      rw [List.map_nil, Senses.bind_nil, Senses.without_nil] at hs'
      exact hbody ⟨r.state.store.size, c.meter⟩ plan' r' hs' hplan
  simpa only [pure_bind] using hrun

/-- An iteration runs in a frame of its own, in which the name of the loop is bound to a whole
number. -/
theorem Yields.iteration {c : Context} {invoke : Invoke} {name : String} {body : List Stmt}
    {ts : List TypedStmt} {returns : Ty} (hs : r.Stands Δ ρ plan c.frame senses pending)
    (h : TypesStmts Δ (.block [(name, .integer)] :: Γ) body ts)
    (hbody : ∀ (c : Context) (plan : Plan) (r : Trace Event World),
      r.Stands Δ ρ plan c.frame (senses.bind [(name, .integer, none)])
        (blockSenses ρ (senses.bind [(name, .integer, none)]) ts ++ pending.without [name]) →
      plan.Promises c.frame (blockSenses ρ (senses.bind [(name, .integer, none)]) ts) →
      Yields Δ ρ (some c.frame) plan (stmts invoke c .nil body) r (Returning returns))
    (n : Int) :
    Yields Δ ρ none plan (TraceM.step (newFrame c.frame) >>= fun frame =>
      TraceM.step (Eval.define frame name (.integer n)) >>= fun _ =>
        stmts invoke { c with frame := frame } .nil body) r (Returning returns) := by
  have hnodup : (([(name, Ty.integer, none)] ++
      blockSenses ρ (senses.bind [(name, .integer, none)]) ts).map Prod.fst).Nodup := by
    rw [List.map_append, names_blockSenses]
    exact h.nodup (List.cons_ne_nil _ _) (by simp [Scope.ownNames, Level.block])
  refine Yields.enter (fun frame => TraceM.step (Eval.define frame name (.integer n))) hs hnodup
    (fun plan' r' _ hr hlt hplan => ?_)
    fun plan' r' _ hs' hplan => hbody ⟨r.state.store.size, c.meter⟩ plan' r' hs' hplan
  exact .define hr hlt (hplan _ (List.mem_singleton_self _)) (.of_admits rfl (by simp))

/-- Statements that follow a statement stand in a frame in which its names are bound. -/
theorem stands_next {invoke' : Invoke} {invoke : Eval.Invoke} (hi : YieldsCalls Δ ρ invoke' invoke)
    {c : Context} {s : Stmt} {t : TypedStmt} {completion : Completion}
    (hs : r.Stands Δ ρ plan c.frame senses pending) (h : TypesStmt Δ Γ s t)
    (hplan : plan.Promises c.frame (t.meaning ρ senses))
    (hl : r.Continues Δ ρ (some c.frame) plan plan' r')
    (hrun : stmt invoke' c s r = .ok completion r') :
    r'.Stands Δ ρ plan' c.frame (senses.bind (t.meaning ρ senses))
      (pending.without ((t.meaning ρ senses).map Prod.fst)) := by
  have hnames := names_stmt hi.confined c s r.state hs.finds.lt_size
  rw [(tracked_stmt hi.confined hi.tracked c s).follows.of_ok hrun] at hnames
  simp only [EStateM.Result.state_ok, EStateM.Result.isOk_ok, and_self, if_true] at hnames
  refine hs.bound hl ?_ (hplan.grows hs.lt_size hl.plan)
  rw [hnames, t.names_meaning, h.names_eq]

/-- A steady statement leaves the type of results where it was. -/
theorem returns_next {t : TypedStmt} {returns : Ty} (hret : Γ.Returns returns)
    (ht : t.Steady .values ρ senses pending) : (Γ.bind t.bindings).Returns returns := by
  refine hret.bind ?_
  cases t with
  | declare d =>
    rw [TypedStmt.Steady] at ht
    simpa [TypedStmt.bindings, eq_comm] using ht.1 rfl
  | define d =>
    rw [TypedStmt.Steady] at ht
    simpa [TypedStmt.bindings, eq_comm] using ht.1 rfl
  | _ => simp [TypedStmt.bindings]

/-! ## Trees -/

/-- The methods of an object are bound in the frame of its members, and find what is around the
object for good. -/
theorem yields_methods (c : Context) {o members : FrameId} {Γ : Scope} (hΓ : Γ.Memberless)
    {senses : Senses} : ∀ (ds : List Definition) {ts : List TypedDefinition} {plan : Plan}
    {r : Trace Event World}, r.Obeys Δ ρ plan →
    FindsForGood plan r.state.store c.frame senses → members < r.state.store.size →
    TypesMethods Δ Γ (.object o) ds ts → SteadyMethods .values ρ o senses ts →
    InitializedMethods ds → (∀ t ∈ ts, plan.own? members t.name = some (t.ty, ρ o t.name)) →
    Yields Δ ρ (some members) plan (objectMethods c members ds) r whatever
  | [], _, _, _, hr, _, _, _, _, _, _ => .pure hr trivial
  | d :: rest, _, plan, r, hr, hfinds, hmembers, h, hsteady, hinit, hplan => by
    cases h with
    | @cons _ _ _ t _ ts hd hrest =>
      rw [SteadyMethods] at hsteady
      obtain ⟨hreceiver, hsteady, hsteadyRest⟩ := hsteady
      rw [InitializedMethods] at hinit
      rw [objectMethods]
      refine (Yields.requireFree hr members d.name).inner_bind fun _ plan₁ r₁ hl₁ _ => ?_
      have hsize := hr.size_eq
      have hplan₁ : ∀ t' ∈ t :: ts, plan₁.own? members t'.name = some (t'.ty, ρ o t'.name) := by
        intro t' ht'
        rw [hl₁.plan.own?_eq (hsize ▸ hmembers)]
        exact hplan t' ht'
      have hown : plan₁.own? members d.name = some (t.ty, some o) := by
        rw [← hreceiver, ← hd.name_eq]
        exact hplan₁ t List.mem_cons_self
      have hfinds₁ := hfinds.grows hsize hl₁.plan hl₁.world.store
      have hmembers₁ := hmembers.trans_le hl₁.world.store.size_le
      have hanswers (v : Value) : Closure.Answers .values Δ ρ plan₁
          (r₁.state.store.append members d.name v) (t.parameters.map (·.ty)) t.returns (some o) d
          ⟨d.parameters.map (·.name), d.body, c.frame, c.meter, true⟩ :=
        ⟨Γ, senses, t, rfl, hΓ, hd, rfl, rfl,
          hfinds₁.grows hl₁.obeys.size_eq (.refl _ _ _) (.append _ _ members d.name v), hsteady⟩
      refine .bindClosure (some o) hl₁.obeys hmembers₁ hown hanswers hinit.1
        fun id plan₂ r₂ hl₂ _ => ?_
      refine yields_methods c hΓ rest hl₂.obeys
        (hfinds₁.grows hl₁.obeys.size_eq hl₂.plan hl₂.world.store)
        (hmembers₁.trans_le hl₂.world.store.size_le) hrest hsteadyRest hinit.2 fun t' ht' => ?_
      rw [hl₂.plan.own?_eq (hl₁.obeys.size_eq ▸ hmembers₁)]
      exact hplan₁ t' (List.mem_cons_of_mem _ ht')

/-- An object whose fields run in the frame of its members is of its type. -/
theorem yields_object (c : Context) {o : FrameId} {Γ : Scope} (hΓ : Γ.Memberless)
    {senses pending : Senses} {plan : Plan} {r : Trace Event World}
    (hs : r.Stands Δ ρ plan c.frame senses pending)
    (name : Option String) {invoke : Invoke} {fields : List Declaration} {methods : List Definition}
    {tfields : List TypedDeclaration} {tmethods : List TypedDefinition}
    (h : TypesMethods Δ Γ (.object o) methods tmethods)
    (hΔ : Δ o = memberBindings tfields tmethods) (hnodup : ((Δ o).map Prod.fst).Nodup)
    (hsteady : SteadyMethods .values ρ o (senses ++ pending) tmethods)
    (hinit : InitializedMethods methods)
    (hfields : ∀ plan' r', r'.Stands Δ ρ plan' r.state.store.size senses
        (ρ.members o (memberBindings tfields tmethods) ++ pending) →
      (∀ t ∈ tfields, plan'.own? r.state.store.size t.name = some (t.ty, ρ o t.name)) →
      Yields Δ ρ (some r.state.store.size) plan'
        (objectFields invoke ⟨r.state.store.size, c.meter⟩ fields) r' whatever) :
    Yields Δ ρ none plan (step (newFrame c.frame) >>= fun members =>
      objectFields invoke { c with frame := members } fields >>= fun _ =>
        objectMethods c members methods >>= fun _ =>
          mark (.built fields methods members) >>= fun _ => Pure.pure (Value.object name members)) r
      fun v plan' r' => v.Obeys Δ ρ plan' r' (.object o, none) := by
  refine .opened hs (ρ.members o (Δ o)) fun plan₁ r₁ hl₁ hs₁ hbindings => ?_
  have hown : ∀ b ∈ memberBindings tfields tmethods,
      plan₁.own? r.state.store.size b.1 = some (b.2, ρ o b.1) := fun b hb =>
    Receivers.own?_members hbindings (lookup_eq_some_of_mem hnodup (hΔ ▸ hb))
  have hlt := hs₁.finds.lt_size
  refine (hfields plan₁ r₁ (hΔ ▸ hs₁) fun t ht => ?_).bind fun _ plan₂ r₂ hl₂ _ => ?_
  · exact hown (t.name, t.ty) (List.mem_append_left _ (List.mem_map_of_mem ht))
  have hlt₂ := hlt.trans_le hl₂.world.store.size_le
  have hl := (hl₁.weaken _).trans hl₂
  refine (yields_methods c hΓ methods hl₂.obeys
    (hs.finds.forGood.grows hs.obeys.size_eq hl.plan hl.world.store) hlt₂ h hsteady hinit
    fun t ht => ?_).bind fun _ plan₃ r₃ hl₃ _ => ?_
  · rw [hl₂.plan.own?_eq hs₁.lt_size]
    exact hown (t.name, t.ty) (List.mem_append_right _ (List.mem_map_of_mem ht))
  refine (Yields.mark (e := .built fields methods _) hl₃.obeys trivial nofun).bind
    fun _ plan₄ r₄ hl₄ _ => ?_
  have hlast := (hl₂.trans hl₃).trans hl₄
  refine .pure hl₄.obeys ⟨name, _, rfl, hlt.trans_le hlast.world.store.size_le, ?_⟩
  rw [hlast.plan.bindings_eq hs₁.lt_size, hbindings]

section Trees

set_option linter.unusedSectionVars false

variable {invoke' : Invoke} {invoke : Eval.Invoke} (hi : YieldsCalls Δ ρ invoke' invoke)
include hi

mutual

/-- An expression yields a value of its type. -/
theorem yields_expr (c : Context) {Γ : Scope} (hΓ : Γ.Memberless) {senses pending : Senses}
    {plan : Plan} {r : Trace Event World} (hs : r.Stands Δ ρ plan c.frame senses pending) :
    ∀ (e : Expr) {t : TypedExpr}, TypesExpr Δ Γ e t → t.Steady .values ρ senses pending →
    e.Initialized → Yields Δ ρ none plan (expr invoke' c e) r fun v plan' r' =>
      v.Obeys Δ ρ plan' r' (t.sense ρ senses)
  | .literal value, _, h, _, _ => by
    cases h
    rw [expr]
    refine .charged hs c.meter fun plan₁ r₁ _ hs₁ => .pure hs₁.obeys ?_
    exact (Value.obeys_iff_of_isPlain value.isPlain_ty).mpr (.literal _ value)
  | .group inner, _, h, hsteady, hinit => by
    cases h with
    | group hinner =>
      rw [TypedExpr.Steady] at hsteady
      rw [Expr.Initialized] at hinit
      rw [expr]
      simp only [TypedExpr.sense, TypedExpr.ty, TypedExpr.receiver]
      refine .charged hs c.meter fun plan₁ r₁ _ hs₁ => ?_
      exact yields_expr c hΓ hs₁ inner hinner hsteady hinit
  | .binary op left right, _, h, hsteady, hinit => by
    cases h with
    | binary hleft hright hop =>
      rw [TypedExpr.Steady] at hsteady
      rw [Expr.Initialized] at hinit
      rw [expr]
      refine .charged hs c.meter fun plan₁ r₁ _ hs₁ => ?_
      refine (yields_expr c hΓ hs₁ left hleft hsteady.1 hinit.1).bind
        fun a plan₂ r₂ hl₂ ha => ?_
      have hs₂ := hs₁.later hl₂
      refine (Yields.result hs₂.obeys _).bind fun decided plan₃ r₃ hl₃ hdecided => ?_
      have hs₃ := hs₂.later hl₃
      cases decided with
      | some v => exact .pure hs₃.obeys ((Value.obeys_iff_of_isPlain hop.isPlain).mpr
          (hop.meets_decidedBy hdecided))
      | none =>
        refine (yields_expr c hΓ hs₃ right hright hsteady.2 hinit.2).bind
          fun b plan₄ r₄ hl₄ hb => ?_
        have ha₄ := (ha.later hs₂.obeys hl₃).later hs₃.obeys hl₄
        have happly : Yields Δ ρ none plan₄
            (step do result (op.apply (← get).print a b)) r₄ fun v _ _ =>
              v.Meets (FallsOff (events r₄.past)) _ :=
          .look hl₄.obeys (fun w => Confined.result _ w) fun v w hrun => by
            obtain ⟨hv, rfl⟩ := result_eq_ok (r := op.apply r₄.state.print a b) hrun
            exact ⟨hop.meets_apply ha₄.meets hb.meets hv, rfl⟩
        exact happly.mono fun v _ _ hl₅ _ hv => (Value.obeys_iff_of_isPlain hop.isPlain).mpr
          (hv.mono fun hfalls => hfalls.mono hl₅.past)
  | .variable name, _, h, hsteady, _ => by
    cases h
    rw [TypedExpr.Steady] at hsteady
    rw [expr]
    refine .charged hs c.meter fun plan₁ r₁ _ hs₁ => ?_
    refine (Yields.lookup hs₁).mono ?_
    rintro v plan₂ r₂ _ _ ⟨σ, hσ, hv⟩
    exact hv.serves (hsteady σ hσ)
  | .property receiver name, _, h, hsteady, hinit => by
    cases h with
    | @property _ _ t o _ ty hreceiver ho hty =>
      rw [TypedExpr.Steady] at hsteady
      rw [Expr.Initialized] at hinit
      rw [expr]
      refine .charged hs c.meter fun plan₁ r₁ _ hs₁ => ?_
      refine (yields_expr c hΓ hs₁ receiver hreceiver hsteady hinit).bind
        fun object plan₂ r₂ hl₂ hobject => ?_
      rw [TypedExpr.sense, ho] at hobject
      rw [hΓ.members_eq] at hty
      refine (Yields.membersOf hl₂.obeys object).bind fun members plan₃ r₃ hl₃ hmembers => ?_
      obtain ⟨label, rfl⟩ := hmembers
      have hmember := Yields.member hl₃.obeys (hobject.later hl₂.obeys hl₃) hty
      simpa only [TypedExpr.sense, TypedExpr.ty, TypedExpr.receiver, ho] using hmember
  | .call name arguments, _, h, hsteady, hinit => by
    cases h with
    | call _ harguments =>
      rw [TypedExpr.Steady] at hsteady
      obtain ⟨htakes, hsteady⟩ := hsteady
      rw [Expr.Initialized] at hinit
      rw [expr]
      refine .charged hs c.meter fun plan₁ r₁ _ hs₁ => ?_
      refine (Yields.lookup hs₁).bind ?_
      rintro target plan₂ r₂ hl₂ ⟨σ, hσ, htarget⟩
      obtain ⟨params, result, rfl, hserves, hparams⟩ := htakes σ hσ
      refine (Yields.callable hl₂.obeys name target).bind fun id plan₃ r₃ hl₃ hid => ?_
      subst hid
      have hs₃ := (hs₁.later hl₂).later hl₃
      refine (yields_exprs c hΓ hs₃ arguments harguments hsteady hinit).bind
        fun values plan₄ r₄ hl₄ hvalues => ?_
      have hmeet : Arguments Δ ρ plan₄ r₄ params none values :=
        Meet.of_below hvalues (hparams.imp fun _ _ h => (h trivial).1)
      exact (hi.yields hl₄.obeys
        ((htarget.later hl₂.obeys hl₃).later hl₃.obeys hl₄) hmeet).mono
        fun v _ _ _ _ hv => hv.serves hserves
  | .method receiver name arguments, _, h, hsteady, hinit => by
    cases h with
    | method hreceiver ho hty harguments =>
      rw [TypedExpr.Steady] at hsteady
      rw [Expr.Initialized] at hinit
      obtain ⟨hmethod, hsteadyReceiver, hsteady⟩ := hsteady
      rw [expr]
      refine .charged hs c.meter fun plan₁ r₁ _ hs₁ => ?_
      refine (yields_expr c hΓ hs₁ receiver hreceiver hsteadyReceiver hinit.1).bind
        fun object plan₂ r₂ hl₂ hobject => ?_
      rw [TypedExpr.sense, ho] at hobject
      rw [hΓ.members_eq] at hty
      have hs₂ := hs₁.later hl₂
      refine (Yields.membersOf hl₂.obeys object).bind fun members plan₃ r₃ hl₃ hmembers => ?_
      obtain ⟨label, rfl⟩ := hmembers
      have hobject₃ := hobject.later hl₂.obeys hl₃
      refine (Yields.member hl₃.obeys hobject₃ hty).bind fun target plan₄ r₄ hl₄ htarget => ?_
      rw [hmethod _ ho] at htarget
      refine (Yields.callable hl₄.obeys name target).bind fun id plan₅ r₅ hl₅ hid => ?_
      subst hid
      have hs₅ := ((hs₂.later hl₃).later hl₄).later hl₅
      refine (yields_exprs c hΓ hs₅ arguments harguments hsteady hinit.2).bind
        fun values plan₆ r₆ hl₆ hvalues => ?_
      have hl := (hl₄.trans hl₅).trans hl₆
      refine hi.yields hl₆.obeys ((htarget.later hl₄.obeys hl₅).later hl₅.obeys hl₆)
        ⟨_, values, rfl, .of_below hvalues harguments.forall₂_below, ?_⟩
      exact (hobject₃.later hl₃.obeys hl).serves fun _ => ⟨.refl _, fun h => h.elim⟩
  | .object name fields methods, _, h, hsteady, hinit => by
    cases h with
    | @object _ _ o _ _ tfields tmethods _ hfields hmethods hΔ hnodup =>
      rw [TypedExpr.Steady] at hsteady
      obtain ⟨hsteadyFields, hsteadyMethods⟩ := hsteady o rfl
      rw [Expr.Initialized] at hinit
      rw [expr]
      refine .charged hs c.meter fun plan₁ r₁ _ hs₁ => ?_
      exact yields_object c hΓ hs₁ name hmethods hΔ hnodup hsteadyMethods hinit.2
        fun plan₂ r₂ hs₂ hplan => yields_fields ⟨r₁.state.store.size, c.meter⟩ hΓ hs₂ fields
          hfields hsteadyFields hinit.1 hplan

theorem yields_exprs (c : Context) {Γ : Scope} (hΓ : Γ.Memberless) {senses pending : Senses}
    {plan : Plan} {r : Trace Event World} (hs : r.Stands Δ ρ plan c.frame senses pending) :
    ∀ (es : List Expr) {params : List Ty} {ts : List TypedExpr}, TypesArguments Δ Γ es params ts →
    SteadyExprs .values ρ senses pending ts → InitializedExprs es →
    Yields Δ ρ none plan (exprs invoke' c es) r fun vs plan' r' =>
      List.Forall₂ (fun t v => v.Obeys Δ ρ plan' r' (t.sense ρ senses)) ts vs
  | [], _, _, h, _, _ => by
    cases h
    rw [exprs]
    exact .pure hs.obeys .nil
  | e :: rest, _, _, h, hsteady, hinit => by
    cases h with
    | cons he _ hrest =>
      rw [SteadyExprs] at hsteady
      rw [InitializedExprs] at hinit
      rw [exprs]
      refine (yields_expr c hΓ hs e he hsteady.1 hinit.1).bind fun v plan₁ r₁ hl₁ hv => ?_
      refine (yields_exprs c hΓ (hs.later hl₁) rest hrest hsteady.2 hinit.2).bind
        fun vs plan₂ r₂ hl₂ hvs => ?_
      exact .pure hl₂.obeys (.cons (hv.later hl₁.obeys hl₂) hvs)

theorem yields_optionalExpr (c : Context) {Γ : Scope} (hΓ : Γ.Memberless) {senses pending : Senses}
    {plan : Plan} {r : Trace Event World} (hs : r.Stands Δ ρ plan c.frame senses pending) :
    ∀ (e : Option Expr) {t : Option TypedExpr}, TypesOption Δ Γ e t →
    SteadyOption .values ρ senses pending t → InitializedOption e →
    Yields Δ ρ none plan (optionalExpr invoke' c e) r fun v plan' r' =>
      v.Obeys Δ ρ plan' r' (t.elim .nil (·.ty), t.elim none (·.receiver ρ senses))
  | none, _, h, _, _ => by
    cases h
    rw [optionalExpr]
    exact .pure hs.obeys (.of_admits rfl nofun)
  | some e, _, h, hsteady, hinit => by
    cases h with
    | some he =>
      rw [SteadyOption] at hsteady
      rw [InitializedOption] at hinit
      rw [optionalExpr]
      exact yields_expr c hΓ hs e he hsteady hinit

/-- A declaration binds its name to a value that obeys the plan. -/
theorem yields_declaration (c : Context) {Γ : Scope} (hΓ : Γ.Memberless) {senses pending : Senses}
    {plan : Plan} {r : Trace Event World} (hs : r.Stands Δ ρ plan c.frame senses pending) :
    ∀ (d : Declaration) {t : TypedDeclaration} {receiver : Option FrameId},
    TypesDeclaration Δ Γ d t → t.Steady .values ρ senses pending → t.Binds ρ senses receiver →
    d.Initialized → plan.own? c.frame t.name = some (t.ty, receiver) →
    Yields Δ ρ (some c.frame) plan (declaration invoke' c d) r fun _ _ r' =>
      r'.state.store.names c.frame = r.state.store.names c.frame ++ [d.name]
  | ⟨name, typeName, value⟩, _, receiver, h, hsteady, hbinds, hinit, hplan => by
    cases h with
    | mk hvalue hdeclares =>
      rw [TypedDeclaration.Steady] at hsteady
      rw [Declaration.Initialized] at hinit
      rw [declaration]
      refine (Yields.requireFree hs.obeys c.frame name).inner_bind fun _ plan₁ r₁ hl₁ _ => ?_
      have hs₁ := hs.later hl₁
      refine (yields_optionalExpr c hΓ hs₁ value hvalue hsteady hinit.2).inner_bind
        fun v plan₂ r₂ hl₂ hv => ?_
      have hs₂ := hs₁.later hl₂
      have hl := hl₁.trans hl₂
      have hobeys := hdeclares.obeys (fun htype => hvalue.isSome_eq ▸ hinit.1 htype) hv hbinds
      refine (Yields.define hl₂.obeys hs₂.finds.lt_size
        ((hl.plan.own?_eq hs.lt_size name).trans hplan) ?_).bind fun _ plan₃ r₃ hl₃ hnames => ?_
      · exact hobeys.grows hl₂.obeys.size_eq (.refl _ _ _) (.of_store (.append _ _ _ _ _))
          (List.Subset.refl _)
      · refine .pure hl₃.obeys ?_
        rw [hnames, hl.world.names_eq hs.finds.lt_size]

theorem yields_fields (c : Context) {o : FrameId} {Γ : Scope} (hΓ : Γ.Memberless)
    {senses pending : Senses} {plan : Plan} {r : Trace Event World}
    (hs : r.Stands Δ ρ plan c.frame senses pending) : ∀ (ds : List Declaration)
    {ts : List TypedDeclaration}, TypesFields Δ Γ ds ts →
    SteadyFields .values ρ o senses pending ts → InitializedFields ds →
    (∀ t ∈ ts, plan.own? c.frame t.name = some (t.ty, ρ o t.name)) →
    Yields Δ ρ (some c.frame) plan (objectFields invoke' c ds) r whatever
  | [], _, h, _, _, _ => by
    cases h
    rw [objectFields]
    exact .pure hs.obeys trivial
  | d :: rest, _, h, hsteady, hinit, hplan => by
    cases h with
    | @cons _ _ t _ ts hd hrest =>
      rw [SteadyFields] at hsteady
      obtain ⟨hbinds, hsteady, hsteadyRest⟩ := hsteady
      rw [InitializedFields] at hinit
      rw [objectFields]
      refine (yields_declaration c hΓ hs d hd hsteady hbinds hinit.1
        (hplan t List.mem_cons_self)).bind fun _ plan₁ r₁ hl₁ hnames => ?_
      have hplan₁ : ∀ t' ∈ t :: ts, plan₁.own? c.frame t'.name = some (t'.ty, ρ o t'.name) := by
        intro t' ht'
        rw [hl₁.plan.own?_eq hs.lt_size]
        exact hplan t' ht'
      -- the fields after it find this field instead of what is around the object
      have hs₁ : r₁.Stands Δ ρ plan₁ c.frame (senses.bind [(t.name, t.ty, ρ o t.name)])
          (pending.without [t.name]) :=
        hs.bound hl₁ (by rw [hnames, ← hd.name_eq]; rfl) fun b hb => by
          rw [List.mem_singleton.mp hb]
          exact hplan₁ t List.mem_cons_self
      exact yields_fields c hΓ hs₁ rest hrest hsteadyRest hinit.2 fun t' ht' =>
        hplan₁ t' (List.mem_cons_of_mem _ ht')

/-- If a statement returns, the value meets the type that the scope asks for. -/
theorem yields_stmt (c : Context) {Γ : Scope} (hΓ : Γ.Memberless) {senses pending : Senses}
    {plan : Plan} {r : Trace Event World} (hs : r.Stands Δ ρ plan c.frame senses pending)
    {returns : Ty} (hret : Γ.Returns returns) : ∀ (s : Stmt) {t : TypedStmt}, TypesStmt Δ Γ s t →
    t.Steady .values ρ senses pending → s.Initialized →
    plan.Promises c.frame (t.meaning ρ senses) →
    Yields Δ ρ (some c.frame) plan (stmt invoke' c s) r (Returning returns)
  | .declare d, _, h, hsteady, hinit, hplan => by
    cases h with
    | @declare _ _ t _ hd =>
      rw [TypedStmt.Steady] at hsteady
      rw [Stmt.Initialized] at hinit
      rw [stmt]
      refine .charged hs c.meter fun plan₁ r₁ hl₁ hs₁ => ?_
      have hplan₁ := hplan.grows hs.lt_size hl₁.plan
      refine (yields_declaration c hΓ hs₁ d hd hsteady.2 t.binds_receiver hinit
        (hplan₁ _ (List.mem_singleton_self _))).bind fun v plan₂ r₂ hl₂ _ => ?_
      exact .pure hl₂.obeys nofun
  | .define d, _, h, hsteady, hinit, hplan => by
    cases h with
    | @define _ _ t _ hd =>
      rw [TypedStmt.Steady, hd.name_eq] at hsteady
      rw [TypedStmt.meaning, hd.name_eq] at hplan
      rw [Stmt.Initialized] at hinit
      rw [stmt]
      refine .charged hs c.meter fun plan₁ r₁ hl₁ hs₁ => ?_
      refine (Yields.requireFree hs₁.obeys c.frame d.name).inner_bind fun _ plan₂ r₂ hl₂ _ => ?_
      have hs₂ := hs₁.later hl₂
      have hplan₂ : plan₂.Promises c.frame [(d.name, t.ty, none)] :=
        hplan.grows hs.lt_size (hl₁.trans hl₂).plan
      have hanswers (v : Value) : Closure.Answers .values Δ ρ plan₂
          (r₂.state.store.append c.frame d.name v) (t.parameters.map (·.ty)) t.returns none d
          ⟨d.parameters.map (·.name), d.body, c.frame, c.meter, false⟩ :=
        ⟨_, _, t, rfl, hΓ.bind _, hd, rfl, rfl, hs₂.finds.define hs₂.obeys.size_eq hplan₂ v,
          hsteady.2⟩
      exact .bindClosure none hl₂.obeys hs₂.finds.lt_size (hplan₂ _ (List.mem_singleton_self _))
        hanswers hinit fun id plan₃ r₃ hl₃ _ => .pure hl₃.obeys nofun
  | .branch condition thenBody elseBody, _, h, hsteady, hinit, _ => by
    cases h with
    | branch hcondition _ hthen helse =>
      rw [TypedStmt.Steady] at hsteady
      rw [Stmt.Initialized] at hinit
      rw [stmt]
      refine .charged hs c.meter fun plan₁ r₁ _ hs₁ => ?_
      refine (yields_expr c hΓ hs₁ condition hcondition hsteady.1 hinit.1).inner_bind
        fun v plan₂ r₂ hl₂ _ => ?_
      refine (Yields.result hl₂.obeys v.truth).inner_bind fun holds plan₃ r₃ hl₃ _ => ?_
      have hs₃ := (hs₁.later hl₂).later hl₃
      have hret' : Scope.Returns (.block [] :: Γ) returns := hret.block (List.not_mem_nil)
      refine Yields.weaken ?_ _
      cases holds with
      | true =>
        exact .block hs₃ hthen fun c plan r hs hplan =>
          yields_stmts c .nil (hΓ.block _) hs hret' thenBody hthen hsteady.2.1 hinit.2.1 hplan
      | false =>
        exact .block hs₃ helse fun c plan r hs hplan =>
          yields_stmts c .nil (hΓ.block _) hs hret' elseBody helse hsteady.2.2 hinit.2.2 hplan
  | .forEach name items body, _, h, hsteady, hinit, _ => by
    cases h with
    | forEach hitems hbelow hbody =>
      rw [TypedStmt.Steady] at hsteady
      rw [Stmt.Initialized] at hinit
      rw [stmt]
      refine .charged hs c.meter fun plan₁ r₁ _ hs₁ => ?_
      refine (yields_expr c hΓ hs₁ items hitems hsteady.2.1 hinit.1).inner_bind
        fun v plan₂ r₂ hl₂ hv => ?_
      refine (Yields.itemsOf hl₂.obeys v).inner_bind fun values plan₃ r₃ hl₃ hvalues => ?_
      subst hvalues
      have hret' : Scope.Returns (.block [(name, .integer)] :: Γ) returns :=
        hret.block (by simpa [eq_comm] using hsteady.1 rfl)
      refine Yields.weaken (.forEach (fun item hitem plan r hs => ?_) ((hs₁.later hl₂).later hl₃)) _
      obtain ⟨n, rfl⟩ := (hv.meets.below hbelow).integer_of_mem hitem
      exact .iteration hs hbody (fun c plan r hs hplan =>
        yields_stmts c .nil (hΓ.block _) hs hret' body hbody hsteady.2.2 hinit.2 hplan) n
  | .ret value, _, h, hsteady, hinit, _ => by
    cases h with
    | ret hty hvalue hbelow =>
      rw [TypedStmt.Steady] at hsteady
      rw [Stmt.Initialized] at hinit
      rw [stmt]
      refine .charged hs c.meter fun plan₁ r₁ _ hs₁ => ?_
      refine (yields_optionalExpr c hΓ hs₁ value hvalue hsteady hinit).inner_bind
        fun v plan₂ r₂ hl₂ hv => ?_
      refine .pure hl₂.obeys ?_
      rintro _ ⟨⟩
      rw [← hret _ hty]
      exact hv.meets.below hbelow
  | .expression value, _, h, hsteady, hinit, _ => by
    cases h with
    | expression hvalue =>
      rw [TypedStmt.Steady] at hsteady
      rw [Stmt.Initialized] at hinit
      rw [stmt]
      refine .charged hs c.meter fun plan₁ r₁ _ hs₁ => ?_
      refine (yields_expr c hΓ hs₁ value hvalue hsteady hinit).inner_bind
        fun v plan₂ r₂ hl₂ _ => ?_
      exact .pure hl₂.obeys nofun
  | .assign (.variable name) value, _, h, hsteady, hinit, _ => by
    cases h with
    | assignVariable _ hvalue _ =>
      rw [TypedStmt.Steady] at hsteady
      obtain ⟨hserves, hsteady⟩ := hsteady
      rw [Stmt.Initialized] at hinit
      rw [stmt]
      refine .charged hs c.meter fun plan₁ r₁ _ hs₁ => ?_
      refine (Yields.lookup hs₁).inner_bind fun _ plan₂ r₂ hl₂ _ => ?_
      have hs₂ := hs₁.later hl₂
      refine (yields_expr c hΓ hs₂ value hvalue hsteady hinit.2).inner_bind
        fun v plan₃ r₃ hl₃ hv => ?_
      refine (Yields.set (hs₂.later hl₃) fun σ hσ => hv.serves (hserves σ hσ)).inner_bind
        fun _ plan₄ r₄ hl₄ _ => ?_
      exact .pure hl₄.obeys nofun
  | .assign (.property receiver name) value, _, h, hsteady, hinit, _ => by
    cases h with
    | assignProperty hreceiver ho hty hvalue hbelow =>
      rw [TypedStmt.Steady] at hsteady
      rw [Stmt.Initialized, Expr.Initialized] at hinit
      obtain ⟨hmember, hsteadyReceiver, hsteady⟩ := hsteady
      rw [stmt]
      refine .charged hs c.meter fun plan₁ r₁ _ hs₁ => ?_
      refine (yields_expr c hΓ hs₁ receiver hreceiver hsteadyReceiver hinit.1).inner_bind
        fun object plan₂ r₂ hl₂ hobject => ?_
      rw [TypedExpr.sense, ho] at hobject
      rw [hΓ.members_eq] at hty
      refine (Yields.membersOf hl₂.obeys object).inner_bind fun members plan₃ r₃ hl₃ hmembers => ?_
      obtain ⟨label, rfl⟩ := hmembers
      have hobject₃ := hobject.later hl₂.obeys hl₃
      refine (Yields.member hl₃.obeys hobject₃ hty).inner_bind fun _ plan₄ r₄ hl₄ _ => ?_
      have hs₄ := ((hs₁.later hl₂).later hl₃).later hl₄
      refine (yields_expr c hΓ hs₄ value hvalue hsteady hinit.2).inner_bind
        fun v plan₅ r₅ hl₅ hv => ?_
      have hobject₅ := hobject₃.later hl₃.obeys (hl₄.trans hl₅)
      have hown := (hobject₅.member (v := v) hl₅.obeys hty).1
      refine (Yields.setOwn hl₅.obeys hown
        (hv.serves fun _ => ⟨hbelow, hmember _ ho⟩)).inner_bind fun _ plan₆ r₆ hl₆ _ => ?_
      exact .pure hl₆.obeys nofun

theorem yields_stmts (c : Context) (last : Value) {Γ : Scope} (hΓ : Γ.Memberless)
    {senses pending : Senses} {plan : Plan} {r : Trace Event World}
    (hs : r.Stands Δ ρ plan c.frame senses pending) {returns : Ty} (hret : Γ.Returns returns) :
    ∀ (body : List Stmt) {ts : List TypedStmt}, TypesStmts Δ Γ body ts →
    SteadyStmts .values ρ senses pending ts → InitializedStmts body →
    plan.Promises c.frame (blockSenses ρ senses ts) →
    Yields Δ ρ (some c.frame) plan (stmts invoke' c last body) r (Returning returns)
  | [], _, _, _, _, _ => by
    rw [stmts]
    exact .pure hs.obeys nofun
  | s :: rest, _, h, hsteady, hinit, hplan => by
    cases h with
    | @cons _ _ t _ ts hstmt hrest =>
      rw [SteadyStmts] at hsteady
      rw [InitializedStmts] at hinit
      rw [blockSenses] at hplan
      have hplanStmt := hplan.mono (List.subset_append_left _ _)
      have hplanRest := hplan.mono (List.subset_append_right _ _)
      rw [stmts]
      have hrun := (yields_stmt c hΓ hs hret s hstmt hsteady.1 hinit.1 hplanStmt).mono
        fun completion plan₁ r₁ hl₁ hr hreturning =>
          And.intro hreturning (stands_next hi hs hstmt hplanStmt hl₁ hr)
      refine hrun.bind fun completion plan₁ r₁ hl₁ h₁ => ?_
      obtain ⟨hreturning, hs₁⟩ := h₁
      cases completion with
      | returned v =>
        refine .pure hs₁.obeys ?_
        rintro _ ⟨⟩
        exact hreturning v rfl
      | normal v =>
        exact yields_stmts c v (hΓ.bind _) hs₁ (returns_next hret hsteady.1) rest hrest hsteady.2
          hinit.2 (hplanRest.grows hs.lt_size hl₁.plan)

end

end Trees

/-! ## Calls of defined functions -/

namespace Arguments

variable {receiver : Option FrameId} {parameters : List TypedParameter} {arguments : List Value}

/-- The arguments are of the types that they are bound to. -/
theorem obeys (h : Arguments Δ ρ plan r (parameters.map (·.ty)) receiver arguments)
    (hplain : ∀ p ∈ parameters, p.ty.IsPlain) {b : (String × Sense) × Value}
    (hb : b ∈ (callSenses receiver parameters).zip arguments) : b.2.Obeys Δ ρ plan r b.1.2 := by
  have hparameter {values : List Value} (hmeet : Meet r (parameters.map (·.ty)) values)
      (hb : b ∈ (Senses.ofTypes (parameters.map fun p => (p.name, p.ty))).zip values) :
      b.2.Obeys Δ ρ plan r b.1.2 := by
    rw [Senses.ofTypes, List.map_map, List.zip_map_left] at hb
    obtain ⟨⟨p, v⟩, hmem, rfl⟩ := List.mem_map.mp hb
    refine (Value.obeys_iff_of_isPlain (hplain p (List.of_mem_zip hmem).1)).mpr ?_
    refine (List.forall₂_iff_zip.mp hmeet).2 ?_
    rw [List.zip_map_left]
    exact List.mem_map.mpr ⟨(p, v), hmem, rfl⟩
  cases receiver with
  | none => exact hparameter h hb
  | some o =>
    obtain ⟨this, rest, rfl, hrest, hthis⟩ := h
    rcases List.mem_cons.mp hb with rfl | hb
    · exact hthis
    · exact hparameter hrest hb

end Arguments

/-- The result of a function meets the type that it declares: either the statements have returned
such a value, or the function has fallen off its end. -/
theorem Returning.result {returns : Ty} {completion : Completion} {d : Definition}
    {isMethod : Bool} {id : FunctionId} (h : Returning returns completion plan r)
    (hdefined : .defined d isMethod id ∈ events r.past) (hty : Denotes d.returnType returns) :
    completion.result.Meets (FallsOff (.completed id completion :: events r.past)) returns := by
  cases completion with
  | returned v => exact (h v rfl).mono fun hfalls => hfalls.mono (List.subset_cons_self _ _)
  | normal v =>
    cases hnil : returns.admits .nil with
    | true =>
      refine .of_admits hnil ?_
      rintro rfl
      cases hnil
    | false =>
      exact .inr ⟨⟨d, isMethod, id, v, returns, List.mem_cons_of_mem _ hdefined, List.mem_cons_self,
        hty, hnil⟩, rfl⟩

/-- When the body of a function completes, the result is recorded, and respects the type that the
definition declares. -/
theorem Yields.completed {returns : Ty} {completion : Completion} {d : Definition}
    {isMethod : Bool} {id : FunctionId} (hr : r.Obeys Δ ρ plan)
    (h : Returning returns completion plan r) (hdefined : .defined d isMethod id ∈ events r.past)
    (hty : Denotes d.returnType returns) :
    Yields Δ ρ g plan
      (TraceM.mark (.completed id completion) >>= fun _ => Pure.pure completion.result) r
      fun v plan' r' => v.Obeys Δ ρ plan' r' (returns, none) := by
  have hresult := h.result hdefined hty
  have hrespected : Event.Respected (.completed id completion :: events r.past)
      (.completed id completion) := by
    intro d' isMethod' ty' hdefined' hty'
    rcases List.mem_cons.mp hdefined' with heq | hdefined'
    · cases heq
    · obtain rfl := hr.defined_eq d isMethod d' isMethod' id hdefined hdefined'
      rwa [hty'.unique hty]
  have hl := Trace.Continues.mark hr g hrespected nofun
  exact .of_ok (bind_run_ok (mark_run _ r) _) hl
    ((Value.obeys_iff_of_isPlain hty.isPlain).mpr hresult)

/-- The body of a function runs in a frame that binds what a call binds, and yields a result of the
declared type. -/
theorem yields_body {n : Nat} (hi : YieldsCalls Δ ρ (call n) (Eval.call n)) {id : FunctionId}
    {d : Definition} {c : Closure} {params : List Ty} {returns : Ty} {receiver : Option FrameId}
    {arguments : List Value} (hr : r.Obeys Δ ρ plan)
    (hdefined : .defined d receiver.isSome id ∈ events r.past)
    (hc : c.Answers .values Δ ρ plan r.state.store params returns receiver d)
    (hinit : d.Initialized) (ha : Arguments Δ ρ plan r params receiver arguments)
    (hlength : arguments.length = c.bindings.length) :
    Yields Δ ρ none plan (runBody id (n + 1) c arguments) r fun v plan' r' =>
      v.Obeys Δ ρ plan' r' (returns, none) := by
  obtain ⟨Γ, senses, t, hclosure, hΓ, htypes, rfl, rfl, hfinds, hsteady⟩ := hc
  have hbound : (callSenses receiver t.parameters).map Prod.fst = c.bindings := by
    rw [hclosure]
    exact names_callSenses htypes
  have hnodup : ((callSenses receiver t.parameters ++ blockSenses ρ
      (senses.bind (callSenses receiver t.parameters)) t.body).map Prod.fst).Nodup := by
    rw [List.map_append, names_blockSenses, callSenses, Senses.names_ofTypes]
    exact htypes.nodup
  refine Yields.enter (fun frame => defineAll frame (c.bindings.zip arguments))
    ⟨hr, hfinds.finds⟩ hnodup (fun plan' r' hl hr' hlt hplan => ?_) fun plan' r' hl hs' hplan => ?_
  · refine (Yields.defineAll hr' hlt fun b hb => ?_).mono fun _ _ r₂ _ _ hall => ?_
    · rw [← hbound, List.zip_map_left] at hb
      obtain ⟨b', hb', rfl⟩ := List.mem_map.mp hb
      exact ⟨_, hplan b'.1 (List.of_mem_zip hb').1,
        (ha.obeys htypes.parameters_isPlain hb').later hr hl⟩
    · rw [hall, List.map_fst_zip hlength.ge, hbound]
  · rw [Senses.without, List.filter_nil, List.append_nil] at hs'
    have hrun := yields_stmts hi ⟨r.state.store.size, c.meter⟩ .nil (hΓ.block _) hs'
      (Scope.Returns.body Γ t.returns htypes.returnsName_not_mem) d.body htypes.body hsteady.body
      hinit.body hplan
    rw [hclosure] at hrun ⊢
    exact hrun.bind fun completion plan₁ r₁ hl₁ hreturning =>
      .completed hl₁.obeys hreturning (hl₁.past (hl.past hdefined)) htypes.denotes_returns

theorem yields_call {n : Nat} (hbody : ∀ {plan : Plan} {r : Trace Event World} {id : FunctionId}
      {d : Definition} {c : Closure} {params : List Ty} {returns : Ty} {receiver : Option FrameId}
      {arguments : List Value}, r.Obeys Δ ρ plan →
      .defined d receiver.isSome id ∈ events r.past →
      c.Answers .values Δ ρ plan r.state.store params returns receiver d → d.Initialized →
      Arguments Δ ρ plan r params receiver arguments → arguments.length = c.bindings.length →
      Yields Δ ρ none plan (runBody id n c arguments) r fun v plan' r' =>
        v.Obeys Δ ρ plan' r' (returns, none))
    {id : FunctionId} {params : List Ty} {returns : Ty} {receiver : Option FrameId}
    {arguments : List Value} (hr : r.Obeys Δ ρ plan)
    (hid : (Value.function id).Obeys Δ ρ plan r (.function params returns, receiver))
    (ha : Arguments Δ ρ plan r params receiver arguments) :
    Yields Δ ρ none plan (call n id arguments) r fun v plan' r' =>
      v.Obeys Δ ρ plan' r' (returns, none) := by
  obtain ⟨_, ⟨name, code⟩, ⟨⟩, hfunction, hanswers⟩ := hid
  have hfind : r.state.function id = ⟨name, code⟩ := by
    rw [World.function, Array.getD_eq_getD_getElem?, hfunction]
    rfl
  rw [call_eq]
  refine .read ?_
  rw [hfind]
  cases code with
  | host f =>
    obtain ⟨-, hty⟩ := hanswers
    refine (Yields.same hr (confined.host name f arguments) fun v w hrun =>
      host_eq_ok (FallsOff (events r.past)) hty hrun).mono fun v _ _ hl _ hv => ?_
    exact (Value.obeys_iff_of_isPlain (HostFunction.isPlain_returns hty)).mpr
      (hv.mono fun hfalls => hfalls.mono hl.past)
  | closure c =>
    obtain ⟨d, hdefined, hc, hinit⟩ := hanswers
    refine (Yields.look hr (confined.requireArguments name _ arguments) fun _ w hrun =>
      requireArguments_eq_ok hrun).bind fun _ plan₁ r₁ hl₁ hlength => ?_
    refine .withCall hl₁.obeys c.meter fun plan₂ r₂ hl₂ => ?_
    have hl := hl₁.trans hl₂
    exact hbody hl₂.obeys (hl.past hdefined) (hc.grows hr.size_eq hl.plan hl.world.store) hinit
      (ha.later hr hl) hlength

/-- Calls yield results of the types of the functions. -/
theorem yieldsCalls (n : Nat) : YieldsCalls Δ ρ (call n) (Eval.call n) := by
  refine ⟨call_confined n, tracked_call n, ?_⟩
  induction n with
  | zero => exact yields_call fun hr _ _ _ _ _ => .throw hr _
  | succ n ih =>
    exact yields_call fun hr hdefined hc hinit ha hlength =>
      yields_body ⟨call_confined n, tracked_call n, ih⟩ hr hdefined hc hinit ha hlength

end Eval.Traced

end ObjectLang
