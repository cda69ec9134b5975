import ObjectLang.Proofs.Eval.Obedience

/-!
# Traced runs that obey a plan

A traced run that starts where a trace obeys a plan yields a value of its type, at the end of a
trace that obeys an extension of the plan. The run may fail; even then all functions that have
completed respected the types of their results. There is one rule for each step of the evaluator, and one for
each way to put steps together.
-/

namespace ObjectLang.Eval.Traced

open TraceM

variable {Δ : FrameId → List (String × Ty)} {ρ : Receivers} {g : Option FrameId} {plan : Plan}
  {r : Trace Event World} {f : FrameId} {senses pending : Senses}

/-- If the run succeeds, the trace has gone on as the plan says, and `P` holds. In any case the
types of results were respected. -/
def Yields (Δ : FrameId → List (String × Ty)) (ρ : Receivers) (g : Option FrameId) (plan : Plan)
    {α : Type} (x : Run α) (r : Trace Event World)
    (P : α → Plan → Trace Event World → Prop) : Prop :=
  match x r with
  | .ok a r' => ∃ plan', r.Continues Δ ρ g plan plan' r' ∧ P a plan' r'
  | .error _ r' => Respects (events r'.past)

/-- Nothing more is said of the end of a run. -/
def whatever {α : Type} (_ : α) (_ : Plan) (_ : Trace Event World) : Prop := True

/-- If the statements return, the value meets the type. -/
def Returning (returns : Ty) (completion : Completion) (_ : Plan) (r : Trace Event World) : Prop :=
  ∀ v, completion = .returned v → v.Meets (FallsOff (events r.past)) returns

namespace Yields

variable {α β : Type} {x : Run α} {k : α → Run β} {P Q : α → Plan → Trace Event World → Prop}
  {R : β → Plan → Trace Event World → Prop}

/-! ## Ways to put steps together -/

theorem of_ok {a : α} {r' : Trace Event World} {plan' : Plan} (hx : x r = .ok a r')
    (hl : r.Continues Δ ρ g plan plan' r') (h : P a plan' r') : Yields Δ ρ g plan x r P := by
  rw [Yields, hx]
  exact ⟨plan', hl, h⟩

theorem of_error {e : Stop} {r' : Trace Event World} (hx : x r = .error e r')
    (h : Respects (events r'.past)) : Yields Δ ρ g plan x r P := by
  rw [Yields, hx]
  exact h

/-- However the run ends, the types of results were respected. -/
theorem respects (hx : Yields Δ ρ g plan x r P) : Respects (events (x r).state.past) := by
  unfold Yields at hx
  cases hrun : x r with
  | error e r' => rwa [hrun] at hx
  | ok a r' =>
    rw [hrun] at hx
    obtain ⟨plan', hl, -⟩ := hx
    exact hl.obeys.respects

theorem pure (hr : r.Obeys Δ ρ plan) {a : α} (h : P a plan r) :
    Yields Δ ρ g plan (pure a) r P :=
  of_ok rfl (.refl hr g) h

theorem throw (hr : r.Obeys Δ ρ plan) (e : Stop) :
    Yields Δ ρ g plan (throw e : Run α) r P :=
  of_error rfl hr.respects

theorem mono (hx : Yields Δ ρ g plan x r P) (h : ∀ a plan' r', r.Continues Δ ρ g plan plan' r' →
    x r = .ok a r' → P a plan' r' → Q a plan' r') : Yields Δ ρ g plan x r Q := by
  unfold Yields at hx ⊢
  cases hrun : x r with
  | error e r' => rwa [hrun] at hx
  | ok a r' =>
    rw [hrun] at hx
    obtain ⟨plan', hl, hP⟩ := hx
    exact ⟨plan', hl, h a plan' r' hl hrun hP⟩

theorem weaken (hx : Yields Δ ρ none plan x r P) (g : Option FrameId) :
    Yields Δ ρ g plan x r P := by
  unfold Yields at hx ⊢
  cases hrun : x r with
  | error e r' => rwa [hrun] at hx
  | ok a r' =>
    rw [hrun] at hx
    obtain ⟨plan', hl, hP⟩ := hx
    exact ⟨plan', hl.weaken g, hP⟩

theorem bind (hx : Yields Δ ρ g plan x r P)
    (hk : ∀ a plan' r', r.Continues Δ ρ g plan plan' r' → P a plan' r' →
      Yields Δ ρ g plan' (k a) r' R) : Yields Δ ρ g plan (x >>= k) r R := by
  unfold Yields at hx
  cases hrun : x r with
  | error e r' =>
    rw [hrun] at hx
    exact of_error (bind_run_error hrun _) hx
  | ok a r' =>
    rw [hrun] at hx
    obtain ⟨plan', hl, hP⟩ := hx
    have hrest := hk a plan' r' hl hP
    unfold Yields at hrest
    cases hrun' : k a r' with
    | error e r'' =>
      rw [hrun'] at hrest
      exact of_error ((bind_run_ok hrun k).trans hrun') hrest
    | ok b r'' =>
      rw [hrun'] at hrest
      obtain ⟨plan'', hl', hR⟩ := hrest
      exact of_ok ((bind_run_ok hrun k).trans hrun') (hl.trans hl') hR

/-- After a part that names nothing a run goes on from a trace in which frames look the same. -/
theorem inner_bind (hx : Yields Δ ρ none plan x r P)
    (hk : ∀ a plan' r', r.Continues Δ ρ none plan plan' r' → P a plan' r' →
      Yields Δ ρ g plan' (k a) r' R) : Yields Δ ρ g plan (x >>= k) r R := by
  have hstrict : Yields Δ ρ none plan x r fun a plan' r' =>
      r.Continues Δ ρ none plan plan' r' ∧ P a plan' r' :=
    hx.mono fun _ _ _ hl _ hP => ⟨hl, hP⟩
  exact (hstrict.weaken g).bind fun a plan' r' _ h => hk a plan' r' h.1 h.2

theorem read {k : Trace Event World → Run β} (h : Yields Δ ρ g plan (k r) r R) :
    Yields Δ ρ g plan (get >>= k) r R := by
  unfold Yields at h ⊢
  rwa [get_bind_run]

/-- A step of the plain run is one more moment. -/
theorem step {x : EvalM α} (hr : r.Obeys Δ ρ plan)
    (h : ∀ a w, x r.state = .ok a w → r.Continues Δ ρ g plan plan (r.next none w) ∧
      P a plan (r.next none w)) : Yields Δ ρ g plan (step x) r P := by
  cases hrun : x r.state with
  | error e w =>
    have hstep : (TraceM.step x : Run α) r = .error e (r.next none w) := by
      rw [step_run, hrun]
      rfl
    exact of_error hstep hr.respects
  | ok a w =>
    have hstep : (TraceM.step x : Run α) r = .ok a (r.next none w) := by
      rw [step_run, hrun]
      rfl
    exact of_ok hstep (h a w hrun).1 (h a w hrun).2

theorem mark (hr : r.Obeys Δ ρ plan) {e : Event} (hrespected : e.Respected (e :: events r.past))
    (hnew : ∀ d isMethod id, e = .defined d isMethod id → id < r.state.functions.size ∧
      ∀ d' isMethod', .defined d' isMethod' id ∉ events r.past) :
    Yields Δ ρ g plan (mark e) r whatever :=
  of_ok (mark_run e r) (.mark hr g hrespected hnew) trivial

/-! ## Steps that leave frames and functions alone -/

theorem same {x : EvalM α} {P : α → Prop} (hr : r.Obeys Δ ρ plan) (hx : Confined none x)
    (h : ∀ a w, x r.state = .ok a w → r.state.Same w ∧ P a) :
    Yields Δ ρ none plan (TraceM.step x) r fun a _ _ => P a := by
  refine .step hr fun a w hrun => ?_
  have hw := hx r.state
  rw [hrun] at hw
  obtain ⟨hsame, hP⟩ := h a w hrun
  exact ⟨.same hr hw hsame, hP⟩

/-- A step that only looks at the world. -/
theorem look {x : EvalM α} {P : α → Prop} (hr : r.Obeys Δ ρ plan) (hx : Confined none x)
    (h : ∀ a w, x r.state = .ok a w → P a ∧ w = r.state) :
    Yields Δ ρ none plan (TraceM.step x) r fun a _ _ => P a := by
  refine .same hr hx fun a w hrun => ?_
  obtain ⟨hP, rfl⟩ := h a w hrun
  exact ⟨.refl _, hP⟩

/-- A tree is charged one step before anything else. -/
theorem charged {x : Run β} (hs : r.Stands Δ ρ plan f senses pending) (m : MeterId)
    (hx : ∀ plan' r', r.Continues Δ ρ none plan plan' r' → r'.Stands Δ ρ plan' f senses pending →
      Yields Δ ρ g plan' x r' R) :
    Yields Δ ρ g plan (TraceM.step (tick m) >>= fun _ => x) r R := by
  refine (Yields.same (P := fun _ => True) hs.obeys (confined.tick m trivial)
    fun _ w hrun => ?_).inner_bind fun _ plan' r' hl _ => hx plan' r' hl (hs.later hl)
  rw [tick_run] at hrun
  dsimp only at hrun
  split at hrun <;> cases hrun
  exact ⟨⟨rfl, rfl⟩, trivial⟩

theorem result (hr : r.Obeys Δ ρ plan) (x : Except EvalError α) :
    Yields Δ ρ none plan (TraceM.step (result x)) r fun a _ _ => x = .ok a :=
  .look hr (Confined.result x) fun _ _ hrun => result_eq_ok hrun

theorem membersOf (hr : r.Obeys Δ ρ plan) (v : Value) :
    Yields Δ ρ none plan (TraceM.step (membersOf v)) r fun members _ _ =>
      ∃ label, v = .object label members :=
  .look hr (confined.membersOf v) fun _ _ hrun => membersOf_eq_ok hrun

theorem callable (hr : r.Obeys Δ ρ plan) (name : String) (v : Value) :
    Yields Δ ρ none plan (TraceM.step (callable name v)) r fun id _ _ => v = .function id :=
  .look hr (confined.callable name v) fun _ _ hrun => callable_eq_ok hrun

theorem itemsOf (hr : r.Obeys Δ ρ plan) (v : Value) :
    Yields Δ ρ none plan (TraceM.step (itemsOf v)) r fun items _ _ => v = .list items :=
  .look hr (confined.itemsOf v) fun _ _ hrun => itemsOf_eq_ok hrun

theorem requireFree (hr : r.Obeys Δ ρ plan) (f : FrameId) (name : String) :
    Yields Δ ρ none plan (TraceM.step (requireFree f name)) r whatever :=
  .look hr (confined.requireFree f name) fun _ _ hrun => ⟨trivial, (requireFree_eq_ok hrun).2⟩

/-- What is found under a name is as one of its meanings says. -/
theorem lookup {name : String} (hs : r.Stands Δ ρ plan f senses pending) :
    Yields Δ ρ none plan (TraceM.step (lookup f name)) r fun v plan' r' =>
      ∃ σ, (name, σ) ∈ senses ∧ v.Obeys Δ ρ plan' r' σ := by
  refine (Yields.look hs.obeys (confined.lookup f name) fun v w hrun => lookup_eq_ok hrun).mono
    fun v plan' r' hl _ hv => ?_
  obtain ⟨σ, hσ, hobeys⟩ := hs.lookup hv
  exact ⟨σ, hσ, hobeys.later hs.obeys hl⟩

/-- A member of an object has a value of the type that the object's type gives it. -/
theorem member {name : String} {ty : Ty} {label : Option String} {members o : FrameId}
    {receiver : Option FrameId} (hr : r.Obeys Δ ρ plan)
    (hobject : (Value.object label members).Obeys Δ ρ plan r (.object o, receiver))
    (hty : (Δ o).lookup name = some ty) :
    Yields Δ ρ none plan (TraceM.step (member members name)) r fun v plan' r' =>
      v.Obeys Δ ρ plan' r' (ty, ρ o name) :=
  (Yields.look hr (confined.member members name) fun _ _ hrun => member_eq_ok hrun).mono
    fun _ _ _ hl _ hv => ((hobject.member hr hty).2 hv).later hr hl

/-! ## Steps that change frames and functions -/

/-- A name may get a value that is as all its meanings say. -/
theorem set {name : String} {v : Value} (hs : r.Stands Δ ρ plan f senses pending)
    (hv : ∀ σ, (name, σ) ∈ senses → v.Obeys Δ ρ plan r σ) :
    Yields Δ ρ none plan (TraceM.step (set f name v)) r whatever := by
  refine .step hs.obeys fun _ w hrun => ⟨?_, trivial⟩
  rcases set_eq_ok hrun with rfl | ⟨g, howner, rfl⟩
  · exact .same hs.obeys (.refl _ _) (.refl _)
  · obtain ⟨σ, hσ, hplan⟩ := hs.owner howner
    exact .replace hs.obeys hplan (hv σ hσ)

theorem setOwn {name : String} {v : Value} {σ : Sense} (hr : r.Obeys Δ ρ plan)
    (hplan : plan.own? f name = some σ) (hv : v.Obeys Δ ρ plan r σ) :
    Yields Δ ρ none plan (TraceM.step (setOwn f name v)) r whatever := by
  refine .step hr fun _ w hrun => ⟨?_, trivial⟩
  rcases setOwn_eq_ok hrun with rfl | rfl
  · exact .same hr (.refl _ _) (.refl _)
  · exact .replace hr hplan hv

/-- A name may be bound to what obeys the plan once the name is bound. -/
theorem define {name : String} {v : Value} {σ : Sense} (hr : r.Obeys Δ ρ plan)
    (hf : f < r.state.store.size) (hplan : plan.own? f name = some σ)
    (hv : v.Obeys Δ ρ plan
      (r.next none { r.state with store := r.state.store.append f name v }) σ) :
    Yields Δ ρ (some f) plan (TraceM.step (define f name v)) r fun _ _ r' =>
      r'.state.store.names f = r.state.store.names f ++ [name] := by
  refine .step hr fun _ w hrun => ?_
  obtain ⟨-, rfl⟩ := define_eq_ok hrun
  exact ⟨.append hr hf hplan hv, r.state.store.names_append hf name v⟩

/-- A function that obeys the plan once its name is bound can be made and bound. -/
theorem bindClosure {c : Context} {d : Definition} {captured : FrameId} {params : List Ty}
    {returns : Ty} (receiver : Option FrameId) (hr : r.Obeys Δ ρ plan)
    (hf : f < r.state.store.size)
    (hplan : plan.own? f d.name = some (.function params returns, receiver))
    (hc : ∀ v, Closure.Answers .values Δ ρ plan (r.state.store.append f d.name v) params returns
      receiver d ⟨d.parameters.map (·.name), d.body, captured, c.meter, receiver.isSome⟩)
    (hinit : d.Initialized)
    {k : FunctionId → Run β}
    (hk : ∀ id plan' r', r.Continues Δ ρ (some f) plan plan' r' →
      r'.state.store.names f = r.state.store.names f ++ [d.name] →
      Yields Δ ρ (some f) plan' (k id) r' R) :
    Yields Δ ρ (some f) plan (newClosure c d captured receiver.isSome >>= fun id =>
      TraceM.step (Eval.define f d.name (.function id)) >>= fun _ => k id) r R := by
  -- the step and its record belong together: until then the number of the function is new
  have hnew : Yields Δ ρ (some f) plan (newClosure c d captured receiver.isSome) r
      fun id plan' r' => plan' = plan ∧ r'.state = r.state.withFunction
          (d.function captured c.meter receiver.isSome) ∧
        id = r.state.functions.size ∧ .defined d receiver.isSome id ∈ events r'.past := by
    refine (Yields.step (P := fun id plan' r' => plan' = plan ∧ id = r.state.functions.size ∧
      r' = r.next none (r.state.withFunction (d.function captured c.meter receiver.isSome))) hr
      fun id w hrun => ?_).bind fun id plan₁ r₁ hl₁ h => ?_
    · obtain ⟨rfl, rfl⟩ := newClosure_eq_ok hrun
      exact ⟨.withFunction hr _ _, rfl, rfl, rfl⟩
    · obtain ⟨rfl, rfl, rfl⟩ := h
      refine .of_ok rfl (.mark hl₁.obeys _ trivial fun d' isMethod' id' heq => ?_)
        ⟨rfl, rfl, rfl, List.mem_cons_self⟩
      cases heq
      refine ⟨by simp [Trace.next, World.withFunction], fun d' isMethod' hmem => ?_⟩
      exact lt_irrefl _ (hr.defined_lt d' isMethod' _ hmem)
  refine hnew.bind fun id plan₁ r₁ hl₁ h => ?_
  obtain ⟨rfl, hstate, rfl, hdefined⟩ := h
  have hstore : r₁.state.store = r.state.store := by
    rw [hstate]
    rfl
  refine (Yields.define hl₁.obeys (hstore ▸ hf) hplan ?_).bind fun _ plan₂ r₂ hl₂ hnames => ?_
  · refine ⟨_, d.function captured c.meter receiver.isSome, rfl, ?_, d, hdefined, ?_, hinit⟩
    · rw [Trace.next, hstate]
      exact Array.getElem?_push_size
    · rw [Trace.next, hstore]
      exact hc _
  · exact hk _ plan₂ r₂ (hl₁.trans hl₂) (hstore ▸ hnames)

/-- What is put into a frame that is opened on the way is not put into an older one. -/
theorem opened {k : FrameId → Run β} (hs : r.Stands Δ ρ plan f senses pending)
    (bindings : Senses)
    (hk : ∀ plan' r', r.Continues Δ ρ none plan plan' r' →
      r'.Stands Δ ρ plan' r.state.store.size senses (bindings ++ pending) →
      plan'.bindings r.state.store.size = bindings →
      Yields Δ ρ (some r.state.store.size) plan' (k r.state.store.size) r' R) :
    Yields Δ ρ none plan (TraceM.step (newFrame f) >>= k) r R := by
  have hl := Trace.Continues.opened hs.obeys f bindings
  have hsize := hs.obeys.size_eq
  have hbindings : (plan.openWith f bindings).bindings r.state.store.size = bindings := by
    rw [Store.bindings_openWith, if_pos hsize.symm]
  have hrun := hk _ _ hl ⟨hl.obeys, hs.finds.opened hsize bindings⟩ hbindings
  have hstep : (TraceM.step (newFrame f) : Run FrameId) r =
      .ok r.state.store.size (r.next none (r.state.opened f)) := rfl
  unfold Yields at hrun ⊢
  rw [bind_run_ok hstep]
  cases hrest : k r.state.store.size (r.next none (r.state.opened f)) with
  | error e r' => rwa [hrest] at hrun
  | ok b r' =>
    rw [hrest] at hrun
    obtain ⟨plan', hl', hR⟩ := hrun
    exact ⟨plan', ⟨hl.plan.trans hl'.plan, hl'.world.enclosed, hl'.past, hl'.obeys⟩, hR⟩

/-- If each iteration returns what the function may return, so does the loop. -/
theorem forEach {body : Value → Run Completion} {returns : Ty} {items : List Value}
    (h : ∀ item ∈ items, ∀ plan r, r.Stands Δ ρ plan f senses pending →
      Yields Δ ρ none plan (body item) r (Returning returns))
    (hs : r.Stands Δ ρ plan f senses pending) :
    Yields Δ ρ none plan (forEach body items) r (Returning returns) := by
  induction items generalizing plan r with
  | nil => exact .pure hs.obeys nofun
  | cons item rest ih =>
    refine (h item List.mem_cons_self plan r hs).bind fun completion plan₁ r₁ hl₁ hv => ?_
    cases completion with
    | normal v => exact ih (fun item hitem => h item (List.mem_cons_of_mem _ hitem)) (hs.later hl₁)
    | returned v =>
      refine .pure hl₁.obeys ?_
      rintro _ ⟨⟩
      exact hv v rfl

/-! ## Frames -/

/-- Names can be bound to values that obey the plan. -/
theorem defineAll {bindings : List (String × Value)} (hr : r.Obeys Δ ρ plan)
    (hf : f < r.state.store.size) (hplan : ∀ b ∈ bindings, ∃ σ,
      plan.own? f b.1 = some σ ∧ b.2.Obeys Δ ρ plan r σ) :
    Yields Δ ρ (some f) plan (defineAll f bindings) r fun _ _ r' =>
      r'.state.store.names f = r.state.store.names f ++ bindings.map Prod.fst := by
  induction bindings generalizing plan r with
  | nil => exact .pure hr (by simp)
  | cons b rest ih =>
    obtain ⟨σ, hown, hv⟩ := hplan b List.mem_cons_self
    refine (Yields.define hr hf hown (hv.grows hr.size_eq (.refl _ _ _)
      (.of_store (.append _ _ f b.1 b.2)) (List.Subset.refl _))).bind
      fun _ plan₁ r₁ hl₁ hnames₁ => ?_
    refine (ih hl₁.obeys (hf.trans_le hl₁.world.store.size_le) fun b' hb' => ?_).mono
      fun _ plan₂ r₂ _ _ hnames₂ => ?_
    · obtain ⟨σ', hown', hv'⟩ := hplan b' (List.mem_cons_of_mem _ hb')
      exact ⟨σ', (hl₁.plan.own?_eq (hr.size_eq ▸ hf) _).trans hown', hv'.later hr hl₁⟩
    · rw [hnames₂, hnames₁]
      simp

/-- A block runs in a frame of its own, in which the names of `own` are bound from the start. -/
theorem enter {own block : Senses} (bindOwn : FrameId → Run Unit)
    {k : FrameId → Run β} (hs : r.Stands Δ ρ plan f senses pending)
    (hnodup : ((own ++ block).map Prod.fst).Nodup)
    (hown : ∀ plan' r', r.Continues Δ ρ none plan plan' r' → r'.Obeys Δ ρ plan' →
      r.state.store.size < r'.state.store.size → plan'.Promises r.state.store.size own →
      Yields Δ ρ (some r.state.store.size) plan' (bindOwn r.state.store.size) r' fun _ _ r'' =>
        r''.state.store.names r.state.store.size =
          r'.state.store.names r.state.store.size ++ own.map Prod.fst)
    (hk : ∀ plan' r', r.Continues Δ ρ (some r.state.store.size) plan plan' r' →
      r'.Stands Δ ρ plan' r.state.store.size (senses.bind own)
        (block ++ pending.without (own.map Prod.fst)) →
      plan'.Promises r.state.store.size block →
      Yields Δ ρ (some r.state.store.size) plan' (k r.state.store.size) r' R) :
    Yields Δ ρ none plan
      (TraceM.step (newFrame f) >>= fun frame => bindOwn frame >>= fun _ => k frame) r R := by
  refine .opened hs (own ++ block) fun plan₁ r₁ hl₁ hs₁ hbindings => ?_
  have hpromises := Plan.Promises.of_bindings hbindings hnodup
  refine (hown plan₁ r₁ hl₁ hs₁.obeys hs₁.finds.lt_size
    (hpromises.mono (List.subset_append_left _ _))).bind fun _ plan₂ r₂ hl₂ hnames => ?_
  have hpromises₂ := hpromises.grows hs₁.lt_size hl₂.plan
  exact hk plan₂ r₂ ((hl₁.weaken _).trans hl₂)
    ⟨hl₂.obeys, hs₁.finds.body hs₁.obeys.size_eq hl₂.plan hl₂.world.store hnames
      (hpromises₂.mono (List.subset_append_left _ _))⟩
    (hpromises₂.mono (List.subset_append_right _ _))

/-- A call counts as active while its body runs. -/
theorem withCall {x : Run Value} {σ : Sense} (hr : r.Obeys Δ ρ plan) (m : MeterId)
    (h : ∀ plan' r', r.Continues Δ ρ none plan plan' r' →
      Yields Δ ρ none plan' x r' fun v plan'' r'' => v.Obeys Δ ρ plan'' r'' σ) :
    Yields Δ ρ none plan (withCall m x) r fun v plan' r' => v.Obeys Δ ρ plan' r' σ := by
  have hallow : Yields Δ ρ none plan (TraceM.step (allow m)) r whatever := by
    refine .step hr fun _ w hrun => ⟨?_, trivial⟩
    unfold allow at hrun
    split at hrun <;> cases hrun
    exact .same hr (.modifyMeter _ m fun _ => le_rfl) ⟨rfl, rfl⟩
  refine hallow.bind fun _ plan₁ r₁ hl₁ _ => ?_
  have hbody := h plan₁ r₁ hl₁
  unfold Yields at hbody
  cases hrun : x r₁ with
  | error e r₂ =>
    rw [hrun] at hbody
    have hclosing : closing (fun r => r.next none (r.state.leave m)) x r₁ =
        .error e (r₂.next none (r₂.state.leave m)) := by
      rw [closing, hrun]
      rfl
    exact of_error hclosing hbody
  | ok v r₂ =>
    rw [hrun] at hbody
    obtain ⟨plan₂, hl₂, hv⟩ := hbody
    have hleave : r₂.Continues Δ ρ none plan₂ plan₂ (r₂.next none (r₂.state.leave m)) :=
      .same hl₂.obeys (.modifyMeter _ m fun _ => le_rfl) ⟨rfl, rfl⟩
    have hclosing : closing (fun r => r.next none (r.state.leave m)) x r₁ =
        .ok v (r₂.next none (r₂.state.leave m)) := by
      rw [closing, hrun]
      rfl
    exact of_ok hclosing (hl₂.trans hleave) (hv.later hl₂.obeys hleave)

end Yields

end ObjectLang.Eval.Traced
